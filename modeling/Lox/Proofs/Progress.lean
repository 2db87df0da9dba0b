/-
  File:      Lox/Proofs/Progress.lean
  Subject:   Where a cursor can get to.

  Whatever is asked of a cursor, and whatever failed before, it moves forward or stays, and it never
  moves behind the end marker.  A declaration moves it on, be it a good one or not.  So declarations
  made one after the other reach the end, and there are no more of them than tokens.

  * `Step.Within` -- the steps that stay inside the tokens they were put before;
  * `Cursor.perform_frame` -- what a call does beside moving the cursor;
  * `Cursor.perform_moves` -- a call moves the cursor over some of the tokens that are left;
  * `Cursor.after`, `Cursor.after_inside` -- so do calls one after the other;
  * `Cursor.rest_declaration_lt` -- a declaration leaves fewer tokens than it found;
  * `Cursor.Declares`, `Cursor.declares_declareAll` -- a parse is a loop of declarations;
  * `calls_stay_inside_the_tokens` -- all this of every cursor that calls can lead to.
-/
import Lox.Proofs.Safety
import Lox.Tree.Cursor

namespace Lox

open Token (Kind)

/-! ## 1. Steps -/

/-- The step reads no more than the tokens it was put before. -/
def Step.Within (s : Step α) (ts : List Token) : Prop :=
  s.used ≤ ts.length

namespace Step.Within

variable {s : Step α} {ts : List Token}

theorem fail (e : SyntaxError) (ts : List Token) : (Step.fail e : Step α).Within ts :=
  Nat.zero_le _

theorem map (h : s.Within ts) (f : α → β) : (s.map f).Within ts :=
  h

/-- A step behind the first token. -/
theorem behind (h : s.Within ts) (t : Token) : (s.behind 1).Within (t :: ts) := by
  unfold Within at h ⊢
  rw [used_behind, List.length_cons]
  omega

/-- A step and what follows it, if that stays inside the tokens left for it. -/
theorem andThen (h : s.Within ts) {f : α → List Token → Step β}
    (hf : ∀ a rest, (f a rest).Within rest) : (s.andThen ts f).Within ts := by
  unfold Within at h hf ⊢
  cases hs : s.result with
  | error e =>
      rw [andThen_of_error hs]
      exact h
  | ok a =>
      have hlater := hf a (ts.drop s.used)
      rw [List.length_drop] at hlater
      rw [andThen_of_ok hs, used_followedBy]
      omega

end Step.Within

section Rules

variable (stop : Token) (ts : List Token)

theorem expect_within (kind : Kind) (cause : SyntaxError.Cause) :
    (expect stop kind cause ts).Within ts := by
  cases ts with
  | nil => exact .fail _ _
  | cons t rest =>
      rw [expect]
      split
      · exact Nat.succ_le_succ (Nat.zero_le _)
      · exact .fail _ _

theorem rule_within (r : Rule) : (r.parse stop ts).Within ts :=
  run_used_le stop (.rule r) ts

theorem terminated_within (cause : SyntaxError.Cause) (make : Expr → Stmt) :
    (terminated stop cause make ts).Within ts :=
  (rule_within stop ts .assignment).andThen fun _ rest => (expect_within stop rest _ _).map _

theorem statement_within : (statement stop ts).Within ts := by
  cases ts with
  | nil => exact terminated_within stop [] _ _
  | cons t rest =>
      rw [statement]
      split
      · exact (terminated_within stop rest _ _).behind t
      · exact terminated_within stop (t :: rest) _ _

theorem initializer_within (target : Token) : (initializer stop target ts).Within ts := by
  cases ts with
  | nil => exact .fail _ _
  | cons t rest =>
      rw [initializer]
      split
      · exact (terminated_within stop rest _ _).behind t
      · exact (expect_within stop (t :: rest) _ _).map _

theorem varDeclaration_within : (varDeclaration stop ts).Within ts :=
  (expect_within stop ts _ _).andThen fun target rest => initializer_within stop rest target

/-- A declaration uses no more than the tokens there are, those that are dropped included. -/
theorem declaration_used_le : (declaration stop ts).used ≤ ts.length := by
  obtain ⟨us, rest, reports, result, rfl, h⟩ := exists_readsStmt stop ts
  rw [h.declaration_eq, List.length_append]
  cases result with
  | ok s => exact Nat.le_add_right _ _
  | error err => exact Nat.add_le_add_left (skip_le rest) _

end Rules

namespace Cursor

variable {c : Cursor}

/-! ## 2. One call -/

theorem advance_frame (c : Cursor) :
    c.advance.stream = c.stream ∧ c.advance.reporter = c.reporter := by
  unfold advance
  split
  · exact ⟨rfl, rfl⟩
  · exact ⟨rfl, rfl⟩

/-- **Beside the position**, a call leaves the stream as it is, and it tells the reporter just what
    it writes. -/
theorem perform_frame (c : Cursor) (call : Call) :
    (c.perform call).cursor.stream = c.stream ∧
      (c.perform call).cursor.reporter = c.reporter.reportAll (c.perform call).diagnostics := by
  cases call with
  | advance => exact c.advance_frame
  | accept kinds =>
      simp only [perform]
      split
      · exact c.advance_frame
      · exact ⟨rfl, rfl⟩
  | _ => exact ⟨rfl, rfl⟩

theorem perform_stream (c : Cursor) (call : Call) : (c.perform call).cursor.stream = c.stream :=
  (c.perform_frame call).1

theorem rest_move (c : Cursor) (n : Nat) (reports : List SyntaxError) (a : Answer) :
    (c.move n reports a).cursor.rest = c.rest.drop n :=
  List.drop_drop.symm

theorem length_rest (c : Cursor) : c.rest.length = c.stream.tokens.length - c.position :=
  List.length_drop

theorem advance_moves (c : Cursor) : ∃ n ≤ c.rest.length, c.advance.position = c.position + n := by
  unfold advance
  split
  · exact ⟨0, Nat.zero_le _, rfl⟩
  · rename_i h
    rw [atEnd, List.isEmpty_iff, ← ne_eq, ← List.length_pos_iff] at h
    exact ⟨1, h, rfl⟩

/-- **A call moves the cursor over some of the tokens that are left**, whether it fails or not. -/
theorem perform_moves (c : Cursor) (call : Call) :
    ∃ n ≤ c.rest.length, (c.perform call).cursor.position = c.position + n := by
  have hstays : ∃ n ≤ c.rest.length, c.position = c.position + n := ⟨0, Nat.zero_le _, rfl⟩
  cases call with
  | peek | previous | atEnd | check | complain | blame => exact hstays
  | advance => exact c.advance_moves
  | accept kinds =>
      simp only [perform]
      split
      · exact c.advance_moves
      · exact hstays
  | consume => exact ⟨_, expect_within _ _ _ _, rfl⟩
  | synchronize => exact ⟨_, skip_le _, rfl⟩
  | rule r => exact ⟨_, rule_within _ _ r, rfl⟩
  | expressionStatement | printStatement => exact ⟨_, terminated_within _ _ _ _, rfl⟩
  | statement => exact ⟨_, statement_within _ _, rfl⟩
  | varDeclaration => exact ⟨_, varDeclaration_within _ _, rfl⟩
  | declaration => exact ⟨_, declaration_used_le _ _, rfl⟩
  | program => exact ⟨_, Nat.le_of_eq (declarations_used _ _), rfl⟩

/-- The cursor stands at a token of the stream, be it the end marker. -/
def Inside (c : Cursor) : Prop :=
  c.position ≤ c.stream.tokens.length

theorem Inside.peek_eq (h : c.Inside) : c.stream.all[c.position]? = some c.peek := by
  unfold Inside at h
  rw [peek, rest, List.headD_eq_head?_getD, List.head?_drop, Token.Stream.all]
  rcases Nat.lt_or_eq_of_le h with hlt | heq
  · rw [List.getElem?_append_left hlt, List.getElem?_eq_getElem hlt]
    rfl
  · rw [heq, List.getElem?_append_right (Nat.le_refl _), List.getElem?_eq_none (Nat.le_refl _)]
    simp

theorem Inside.perform (h : c.Inside) (call : Call) : (c.perform call).cursor.Inside := by
  obtain ⟨n, hn, hposition⟩ := c.perform_moves call
  unfold Inside at h ⊢
  rw [length_rest] at hn
  rw [perform_stream, hposition]
  omega

/-- The end of the stream is where the end marker is seen. -/
theorem rest_eq_nil_iff (hs : c.stream.Ended) : c.rest = [] ↔ c.peek.kind = .eof := by
  unfold peek
  cases h : c.rest with
  | nil => simp [hs.stop]
  | cons t others =>
      have ht : t ∈ c.stream.tokens := List.mem_of_mem_drop (h ▸ List.mem_cons_self)
      simp [hs.tokens t ht]

/-! ## 3. Calls one after the other -/

/-- The cursor after some calls. -/
def after (c : Cursor) (calls : List Call) : Cursor :=
  calls.foldl (fun c call => (c.perform call).cursor) c

theorem after_stream (c : Cursor) (calls : List Call) : (c.after calls).stream = c.stream := by
  induction calls generalizing c with
  | nil => rfl
  | cons call calls ih => exact (ih (c.perform call).cursor).trans (c.perform_stream call)

theorem after_inside (h : c.Inside) (calls : List Call) : (c.after calls).Inside := by
  induction calls generalizing c with
  | nil => exact h
  | cons call calls ih => exact ih (h.perform call)

/-! ## 4. Declarations up to the end -/

/-- What a declaration passes: some of the tokens, and at least one of them. -/
theorem rest_declaration (h : c.rest ≠ []) :
    ∃ us, us ≠ [] ∧ c.rest = us ++ (c.perform .declaration).cursor.rest ∧
      (Lox.declaration c.stream.stop c.rest).used = us.length := by
  obtain ⟨us, rest, hrest, hne, hused⟩ := declaration_progress c.stream.stop h
  refine ⟨us, hne, ?_, hused⟩
  have hmove : (c.perform .declaration).cursor.rest = c.rest.drop us.length := by
    rw [← hused]
    exact c.rest_move _ _ _
  rw [hmove, hrest, List.drop_left]

/-- **A declaration leaves fewer tokens than it found**, whether it succeeds or fails. -/
theorem rest_declaration_lt (h : c.rest ≠ []) :
    (c.perform .declaration).cursor.rest.length < c.rest.length := by
  obtain ⟨us, hne, hrest, -⟩ := rest_declaration h
  exact length_lt_of_append hrest hne

theorem position_declaration_lt (h : c.rest ≠ []) :
    c.position < (c.perform .declaration).cursor.position := by
  have hlt := rest_declaration_lt h
  rw [length_rest, length_rest, perform_stream] at hlt
  omega

/-- Declarations are made from `c` on until the end marker is seen, and they lead to `c'`. -/
inductive Declares : Cursor → List Performed → Cursor → Prop
  | done {c : Cursor} (h : c.peek.kind = .eof) : Declares c [] c
  | more {c c' : Cursor} {ps : List Performed} (h : c.peek.kind ≠ .eof)
      (hl : Declares (c.perform .declaration).cursor ps c') :
      Declares c (c.perform .declaration :: ps) c'

/-- The tree that a call answered with, if it is that of a statement. -/
def Performed.tree? (p : Performed) : Option Stmt :=
  match p.answer with
  | .statement s => some s
  | _ => none

theorem tree?_declaration (c : Cursor) :
    (c.perform .declaration).tree? = (Lox.declaration c.stream.stop c.rest).tree := by
  simp only [perform, move, Performed.tree?]
  cases (Lox.declaration c.stream.stop c.rest).tree <;> rfl

/-- The declarations from a cursor on, the first one taken off. -/
theorem declarations_rest (h : c.rest ≠ []) :
    declarations c.stream.stop c.rest = Lox.declaration c.stream.stop c.rest ::
      declarations c.stream.stop (c.perform .declaration).cursor.rest := by
  obtain ⟨us, hne, hrest, hused⟩ := rest_declaration h
  rw [hrest] at hused ⊢
  exact declarations_cons hne hused

theorem declareAll_of_end (h : c.rest = []) : c.declareAll = [] := by
  rw [declareAll, h, declarations]
  rfl

theorem declareAll_of_more (h : c.rest ≠ []) :
    c.declareAll = c.perform .declaration :: (c.perform .declaration).cursor.declareAll := by
  rw [declareAll, declarations_rest h]
  rfl

theorem perform_program_of_end (h : c.rest = []) : (c.perform .program).cursor = c := by
  simp only [perform, Reporter.parse, h, declarations]
  rfl

theorem perform_program_of_more (h : c.rest ≠ []) :
    (c.perform .program).cursor = ((c.perform .declaration).cursor.perform .program).cursor := by
  simp only [perform, Reporter.parse, declarations_rest h, List.foldr_cons, List.flatMap_cons,
    List.map_append, Reporter.reportAll_append, move, Nat.add_assoc]

/-- **A parse is a loop of declarations**: it leads where they lead. -/
theorem declares_declareAll (c : Cursor) (hs : c.stream.Ended) :
    c.Declares c.declareAll (c.perform .program).cursor := by
  by_cases h : c.rest = []
  · rw [declareAll_of_end h, perform_program_of_end h]
    exact .done ((rest_eq_nil_iff hs).mp h)
  · have hlt := rest_declaration_lt h
    rw [declareAll_of_more h, perform_program_of_more h]
    exact .more (mt (rest_eq_nil_iff hs).mpr h) (declares_declareAll _ hs)
termination_by c.rest.length
decreasing_by exact hlt

/-- The trees of all declarations up to the end. -/
theorem tree?_declareAll (c : Cursor) :
    c.declareAll.filterMap Performed.tree? =
      (declarations c.stream.stop c.rest).filterMap (·.tree) := by
  by_cases h : c.rest = []
  · rw [declareAll_of_end h, h, declarations]
    rfl
  · have hlt := rest_declaration_lt h
    have ih := tree?_declareAll (c.perform .declaration).cursor
    rw [perform_stream] at ih
    rw [declareAll_of_more h, declarations_rest h, List.filterMap_cons, List.filterMap_cons,
      tree?_declaration, ih]
termination_by c.rest.length
decreasing_by exact hlt

/-- There are no more declarations than tokens. -/
theorem Declares.length_le {ps : List Performed} {c' : Cursor} (h : c.Declares ps c')
    (hs : c.stream.Ended) : ps.length ≤ c.rest.length := by
  induction h with
  | done => exact Nat.zero_le _
  | more h _ ih =>
      have hlt := rest_declaration_lt (mt (rest_eq_nil_iff hs).mp h)
      have hle := ih hs
      rw [List.length_cons]
      omega

theorem perform_program_position (h : c.Inside) :
    (c.perform .program).cursor.position = c.stream.tokens.length := by
  have hused : c.position + (c.reporter.parse c.stream.stop c.rest).used =
      c.position + c.rest.length := congrArg _ (declarations_used _ _)
  unfold Inside at h
  rw [length_rest] at hused
  exact hused.trans (by omega)

theorem rest_program (h : c.Inside) : (c.perform .program).cursor.rest = [] := by
  rw [← List.length_eq_zero_iff, length_rest, perform_stream, perform_program_position h]
  exact Nat.sub_self _

end Cursor

/-! ## 5. What every call keeps to -/

/-- **Calls stay inside the tokens and move forward.** Let a cursor be asked anything, in any order
    and after any failures.  Each rule then has an end: what it does to the tokens that are left is
    derived in finitely many steps.  No call moves the cursor back or behind the end marker, so that
    there is a token to look at.  A declaration made before the end marker moves it on.  And a parse
    is declarations made one after the other, no more of them than tokens, that end at the end
    marker. -/
theorem calls_stay_inside_the_tokens (s : Token.Stream) (hs : s.Ended) (r : Reporter)
    (calls : List Cursor.Call) :
    let c := (⟨s, 0, r⟩ : Cursor).after calls
    (∀ job : Job, ∃ us rest, c.rest = us ++ rest ∧ (job.run s.stop c.rest).used = us.length ∧
      Reads s.stop job us rest (job.run s.stop c.rest).reports (job.run s.stop c.rest).result) ∧
    s.all[c.position]? = some c.peek ∧
    (∀ call, c.position ≤ (c.perform call).cursor.position ∧
      (c.perform call).cursor.position ≤ s.tokens.length) ∧
    (c.peek.kind ≠ .eof → c.position < (c.perform .declaration).cursor.position) ∧
    (c.perform .program).cursor.position = s.tokens.length ∧
    (c.perform .program).cursor.peek.kind = .eof ∧
    ∃ ps, c.Declares ps (c.perform .program).cursor ∧ ps.length ≤ s.tokens.length - c.position ∧
      (c.perform .program).answer = .statements
        (if (c.perform .program).cursor.reporter.hadError then []
          else ps.filterMap Cursor.Performed.tree?) := by
  intro c
  have hstream : c.stream = s := Cursor.after_stream _ calls
  have hended : c.stream.Ended := hstream.symm ▸ hs
  have hended' : (c.perform .program).cursor.stream.Ended := c.perform_stream .program ▸ hended
  have hinside : c.Inside := Cursor.after_inside (Nat.zero_le _) calls
  have hlength := c.length_rest
  rw [hstream] at hlength
  refine ⟨fun job => reads_run s.stop job c.rest, ?_, fun call => ?_, fun h => ?_, ?_, ?_,
    c.declareAll, c.declares_declareAll hended, ?_, ?_⟩
  · rw [← hstream]
    exact hinside.peek_eq
  · obtain ⟨n, -, hposition⟩ := c.perform_moves call
    have hcall := hinside.perform call
    rw [Cursor.Inside, Cursor.perform_stream, hstream] at hcall
    exact ⟨hposition ▸ Nat.le_add_right _ n, hcall⟩
  · exact Cursor.position_declaration_lt (mt (Cursor.rest_eq_nil_iff hended).mp h)
  · rw [← hstream]
    exact Cursor.perform_program_position hinside
  · exact (Cursor.rest_eq_nil_iff hended').mp (Cursor.rest_program hinside)
  · rw [← hlength]
    exact (c.declares_declareAll hended).length_le hended
  · rw [Cursor.tree?_declareAll]
    rfl

/-- `var ) ; x`: the rule behind `var` fails at the very first token, and so does the one for
    primary expressions; then declarations are made from there. -/
theorem calls_stay_inside_nameless :
    let var : Token := { kind := .varWord, lexeme := "var" }
    let paren : Token := { kind := .rightParen, lexeme := ")" }
    let semi : Token := { kind := .semicolon, lexeme := ";" }
    let x : Token := { kind := .identifier, lexeme := "x" }
    let s : Token.Stream := ⟨[var, paren, semi, x], Token.endOn 1⟩
    let c := (⟨s, 0, {}⟩ : Cursor).after [.varDeclaration, .rule .primary, .complain "?" true]
    s.Ended ∧ c.position = 0 ∧ c.reporter.errorCount = 3 ∧ c.peek.kind ≠ .eof ∧
      0 < (c.perform .declaration).cursor.position ∧
      (c.perform .program).cursor.position = 4 ∧
      ∃ ps, c.Declares ps (c.perform .program).cursor ∧ ps.length ≤ 4 := by
  intro var paren semi x s c
  have hs : s.Ended := ⟨rfl, by decide⟩
  have hposition : c.position = 0 := by decide +kernel
  have hcount : c.reporter.errorCount = 3 := by decide +kernel
  have hpeek : c.peek.kind ≠ .eof := by decide +kernel
  obtain ⟨-, -, -, hdeclaration, hprogram, -, ps, hps, hlength, -⟩ :=
    calls_stay_inside_the_tokens s hs {} [.varDeclaration, .rule .primary, .complain "?" true]
  have hmoved := hdeclaration hpeek
  rw [hposition] at hlength hmoved
  exact ⟨hs, hposition, hcount, hpeek, hmoved, hprogram, ps, hps, hlength⟩

end Lox
