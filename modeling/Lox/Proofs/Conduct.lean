/-
  File:      Lox/Proofs/Conduct.lean
  Subject:   What every reading of an expression keeps to.

  Each fact is one induction over `Reads`:

  * `Reads.stray_error` -- an error for a stray operator comes from the tightest two rules only,
    at the very first token and with nothing taken;
  * `Reads.takes` -- no token is taken that cannot stand in an expression;
  * `Reads.lookahead` -- of the tokens that are left, only the first one matters.
-/
import Lox.Proofs.Statements

namespace Lox

open Token (Kind)

variable {stop : Token} {job : Job} {us rest : List Token} {reports : List SyntaxError}
  {result : Except SyntaxError Expr}

/-! ## 1. Stray operators -/

theorem map_eq_error {α β : Type} {x : Except SyntaxError α} {f : α → β} {err : SyntaxError}
    (h : x.map f = .error err) : x = .error err := by
  cases x with
  | error e => exact congrArg Except.error (Except.error.inj h)
  | ok a => cases h

/-- **A stray operator is blamed by the tightest two rules only**, where they begin and as their
    only report. -/
theorem Reads.stray_error (h : Reads stop job us rest reports result) :
    ∀ err, result = .error err → err.cause.isStray = true →
      (job = .rule .primary ∨ job = .rule .unary) ∧ us = [] ∧ reports = [err] ∧
        ∃ t others, rest = t :: others ∧ t.kind ∈ binaryOperators ∧ err = ⟨t, .strayOperator⟩ := by
  induction h with
  | literal | name | group | chainEnd | plain | assigned | mistargeted =>
      intro err he
      cases he
  | @stray t rest ht =>
      intro err he _
      cases he
      exact ⟨.inl rfl, rfl, rfl, t, rest, rfl, ht, rfl⟩
  | alien | groupUnclosed =>
      intro err he hs
      cases he
      cases hs
  | groupFailed _ _ ih | chainFailed _ _ ih | levelFailed _ ih | targetFailed _ ih =>
      intro err he hs
      obtain ⟨h | h, -⟩ := ih err he hs <;> cases h
  | level _ _ _ ih | chainMore _ _ _ _ ih | valueFailed _ _ _ _ ih =>
      intro err he hs
      obtain ⟨h | h, -⟩ := ih err he hs <;> cases h
  | prefixed _ _ ih | dropped _ _ _ _ ih =>
      intro err he hs
      obtain ⟨h | h, -⟩ := ih err (map_eq_error he) hs <;> cases h
  | unprefixed _ _ ih =>
      intro err he hs
      obtain ⟨-, h⟩ := ih err he hs
      exact ⟨.inr rfl, h⟩
  | steady _ hn ih =>
      -- the operand would have recovered from just this error
      intro err he hs
      obtain ⟨-, hus, -, t, others, hrest, -⟩ := ih err he hs
      have := hn err he hus (hrest ▸ List.cons_ne_nil t others)
      rw [hs] at this
      cases this

/-! ## 2. What is taken -/

/-- The kinds of the tokens that can stand in an expression. -/
def expressionKinds : List Kind :=
  [.number, .string, .trueWord, .falseWord, .nilWord, .identifier, .leftParen, .rightParen, .bang,
    .equal] ++ binaryOperators

theorem literal?_expressionKinds {t : Token} {v : Value} (h : literal? t = some v) :
    t.kind ∈ expressionKinds := by
  unfold literal? at h
  split at h <;> simp_all [expressionKinds]

theorem binaryOperators_expressionKinds {k : Kind} (h : k ∈ binaryOperators) :
    k ∈ expressionKinds :=
  List.mem_append_right _ h

theorem unaryOperators_expressionKinds {k : Kind} (h : k ∈ unaryOperators) :
    k ∈ expressionKinds := by
  simp only [unaryOperators, List.mem_cons, List.not_mem_nil, or_false] at h
  rcases h with rfl | rfl <;> decide

theorem Level.operators_binary (l : Level) : ∀ k ∈ l.operators, k ∈ binaryOperators := by
  cases l <;> decide

theorem operators_expressionKinds {l : Level} {k : Kind} (h : k ∈ l.operators) :
    k ∈ expressionKinds :=
  binaryOperators_expressionKinds (l.operators_binary k h)

/-- **Every token that is taken can stand in an expression.** -/
theorem Reads.takes (h : Reads stop job us rest reports result) :
    ∀ t ∈ us, t.kind ∈ expressionKinds := by
  induction h with
  | stray | alien | chainEnd => exact fun t ht => absurd ht List.not_mem_nil
  | literal hl =>
      intro t ht
      rw [List.mem_singleton.mp ht]
      exact literal?_expressionKinds hl
  | name hn =>
      intro t ht
      rw [List.mem_singleton.mp ht, hn]
      decide
  | group ho _ hc ih =>
      intro t ht
      rcases List.mem_cons.mp ht with rfl | ht
      · rw [ho]; decide
      rcases List.mem_append.mp ht with ht | ht
      · exact ih t ht
      · rw [List.mem_singleton.mp ht, hc]; decide
  | groupUnclosed ho _ _ ih | groupFailed ho _ ih =>
      intro t ht
      rcases List.mem_cons.mp ht with rfl | ht
      · rw [ho]; decide
      · exact ih t ht
  | prefixed ho _ ih =>
      intro t ht
      rcases List.mem_cons.mp ht with rfl | ht
      · exact unaryOperators_expressionKinds ho
      · exact ih t ht
  | unprefixed _ _ ih | steady _ _ ih | levelFailed _ ih | plain _ _ ih | targetFailed _ ih =>
      exact ih
  | dropped he hs _ _ ih =>
      intro t ht
      rcases List.mem_cons.mp ht with rfl | ht
      · obtain ⟨-, -, -, u, others, hu, hb, -⟩ := he.stray_error _ rfl hs
        cases hu
        exact binaryOperators_expressionKinds hb
      · exact ih t ht
  | level _ _ ihe ihl =>
      intro t ht
      exact (List.mem_append.mp ht).elim (ihe t) (ihl t)
  | chainMore ho _ _ ihe ihl =>
      intro t ht
      rcases List.mem_cons.mp ht with rfl | ht
      · exact operators_expressionKinds ho
      · exact (List.mem_append.mp ht).elim (ihe t) (ihl t)
  | chainFailed ho _ ih =>
      intro t ht
      rcases List.mem_cons.mp ht with rfl | ht
      · exact operators_expressionKinds ho
      · exact ih t ht
  | assigned _ hq _ ihe ihl | mistargeted _ hq _ _ ihe ihl | valueFailed _ hq _ ihe ihl =>
      intro t ht
      rcases List.mem_append.mp ht with ht | ht
      · exact ihe t ht
      rcases List.mem_cons.mp ht with rfl | ht
      · rw [hq]; decide
      · exact ihl t ht

/-! ## 3. What is looked at -/

theorem AtFront.congr {p : Token → Prop} {ts ts' : List Token} (h : AtFront p ts)
    (hh : ts'.head? = ts.head?) : AtFront p ts' := by
  unfold AtFront at h ⊢
  rw [hh]
  exact h

theorem front_congr (stop stop' : Token) {ts ts' : List Token} (hne : ts ≠ [])
    (hh : ts'.head? = ts.head?) : front stop' ts' = front stop ts := by
  obtain ⟨t, others, rfl⟩ := List.exists_cons_of_ne_nil hne
  rw [front, List.headD_eq_head?_getD, hh]
  rfl

theorem head?_append_congr {us ts ts' : List Token} (hh : ts'.head? = ts.head?) :
    (us ++ ts').head? = (us ++ ts).head? := by
  rw [List.head?_append, List.head?_append, hh]

/-- **Of the tokens that are left, only the first one matters**: with any others behind it, and
    with any end marker, the reading is the same. -/
theorem Reads.lookahead {stop' : Token} (h : Reads stop job us rest reports result) :
    rest ≠ [] → ∀ {rest' : List Token}, rest'.head? = rest.head? →
      Reads stop' job us rest' reports result := by
  induction h with
  | literal ht => exact fun _ _ _ => .literal ht
  | name ht => exact fun _ _ _ => .name ht
  | @stray t rest ht =>
      intro _ rest' hh
      cases rest' with
      | nil => cases hh
      | cons u others =>
          cases hh
          exact .stray ht
  | alien hf =>
      intro hne rest' hh
      rw [← front_congr stop stop' hne hh]
      exact .alien (hf.congr hh)
  | group ho _ hc ih =>
      intro _ rest' _
      exact .group ho (ih (List.cons_ne_nil _ _) rfl) hc
  | groupUnclosed ho _ hf ih =>
      intro hne rest' hh
      rw [← front_congr stop stop' hne hh]
      exact .groupUnclosed ho (ih hne hh) (hf.congr hh)
  | groupFailed ho _ ih => exact fun hne _ hh => .groupFailed ho (ih hne hh)
  | prefixed ho _ ih => exact fun hne _ hh => .prefixed ho (ih hne hh)
  | unprefixed hf _ ih =>
      intro hne rest' hh
      exact .unprefixed (hf.congr (head?_append_congr hh)) (ih hne hh)
  | steady _ hs ih =>
      intro hne rest' hh
      exact .steady (ih hne hh) fun err he hus _ => hs err he hus hne
  | dropped _ hs _ ihe ihl =>
      intro hne rest' hh
      exact .dropped (ihe (List.cons_ne_nil _ _) rfl) hs (ihl hne hh)
  | level _ _ ihe ihl =>
      intro hne rest' hh
      exact .level (ihe (List.append_ne_nil_of_right_ne_nil _ hne) (head?_append_congr hh))
        (ihl hne hh)
  | levelFailed _ ih => exact fun hne _ hh => .levelFailed (ih hne hh)
  | chainEnd hf => exact fun _ _ hh => .chainEnd (hf.congr hh)
  | chainMore ho _ _ ihe ihl =>
      intro hne rest' hh
      exact .chainMore ho (ihe (List.append_ne_nil_of_right_ne_nil _ hne) (head?_append_congr hh))
        (ihl hne hh)
  | chainFailed ho _ ih => exact fun hne _ hh => .chainFailed ho (ih hne hh)
  | plain _ hf ih => exact fun hne _ hh => .plain (ih hne hh) (hf.congr hh)
  | targetFailed _ ih => exact fun hne _ hh => .targetFailed (ih hne hh)
  | assigned _ hq _ ihe ihl =>
      intro hne rest' hh
      exact .assigned (ihe (List.cons_ne_nil _ _) rfl) hq (ihl hne hh)
  | mistargeted _ hq hn _ ihe ihl =>
      intro hne rest' hh
      exact .mistargeted (ihe (List.cons_ne_nil _ _) rfl) hq hn (ihl hne hh)
  | valueFailed _ hq _ ihe ihl =>
      intro hne rest' hh
      exact .valueFailed (ihe (List.cons_ne_nil _ _) rfl) hq (ihl hne hh)

end Lox
