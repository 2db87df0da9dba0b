/-
  File:      Lox/Proofs/Reading.lean
  Subject:   What the rules for expressions do, said as a relation.

  The rules are three functions that call each other on ever shorter tokens.  Here the same is
  said case by case: `Reads stop job us rest reports result` holds when the job, put before the
  tokens `us ++ rest`, takes `us`, leaves `rest`, reports `reports` and ends with `result`.  Every
  way in which a call can end is one constructor, so that a property of all rules is proved by one
  induction.

  * `Job`, `Job.run` -- a rule, an operand or the rest of a chain, and the function behind it;
  * `Reads` -- what a job does;
  * `Reads.run_eq` -- the functions do what the relation says;
  * `exists_reads` -- the relation says something about all tokens;
  * `reads_run` -- so it says exactly what the functions do.
-/
import Lox.Tree.Statement

namespace Lox

open Token (Kind)

/-! ## 1. The token at the front -/

/-- The token at the front of `ts`, the end marker if there is none. -/
def front (stop : Token) (ts : List Token) : Token :=
  ts.headD stop

/-- What holds of the token at the front of `ts`, if there is one. -/
def AtFront (p : Token → Prop) (ts : List Token) : Prop :=
  ∀ t ∈ ts.head?, p t

@[simp] theorem front_nil (stop : Token) : front stop [] = stop := rfl

@[simp] theorem front_cons (stop t : Token) (ts : List Token) : front stop (t :: ts) = t := rfl

@[simp] theorem atFront_nil (p : Token → Prop) : AtFront p [] := by
  simp [AtFront]

@[simp] theorem atFront_cons (p : Token → Prop) (t : Token) (ts : List Token) :
    AtFront p (t :: ts) ↔ p t := by
  simp [AtFront]

theorem AtFront.imp {p q : Token → Prop} {ts : List Token} (h : AtFront p ts)
    (hpq : ∀ t, p t → q t) : AtFront q ts :=
  fun t ht => hpq t (h t ht)

theorem exists_of_not_atFront {p : Token → Prop} {ts : List Token}
    (h : ¬ AtFront (fun t => ¬ p t) ts) : ∃ t rest, ts = t :: rest ∧ p t := by
  cases ts with
  | nil => exact absurd (atFront_nil _) h
  | cons t rest =>
      rw [atFront_cons] at h
      exact ⟨t, rest, rfl, Classical.not_not.mp h⟩

/-! ## 2. Jobs -/

/-- What can be put before a list of tokens: a rule, an operand of a rule, or the rest of a chain
    of operators with what stands to its left. -/
inductive Job where
  | rule (r : Rule)
  | operand (r : Rule)
  | chain (l : Level) (left : Expr)

/-- The function behind a job. -/
def Job.run (stop : Token) : Job → List Token → Step Expr
  | .rule r, ts => r.parse stop ts
  | .operand r, ts => Lox.operand stop r ts
  | .chain l left, ts => Lox.chain stop l left ts

/-- How far a job is from being done by reading a single token. -/
def Job.rank : Job → Nat
  | .rule r => r.rank
  | .operand r => r.rank + 1
  | .chain _ _ => 0

/-- True of the tokens that no primary expression begins with, and that are no binary operators
    either. -/
def Alien (t : Token) : Prop :=
  t.kind ≠ .leftParen ∧ t.kind ≠ .identifier ∧ t.kind ∉ binaryOperators ∧ literal? t = none

/-! ## 3. The relation -/

/-- The job, put before `us ++ rest`, takes `us`, leaves `rest`, reports errors and ends with a
    result. -/
inductive Reads (stop : Token) :
    Job → List Token → List Token → List SyntaxError → Except SyntaxError Expr → Prop
  | literal {t rest v} (ht : literal? t = some v) :
      Reads stop (.rule .primary) [t] rest [] (.ok (.literal v))
  | name {t rest} (ht : t.kind = .identifier) :
      Reads stop (.rule .primary) [t] rest [] (.ok (.name t))
  | stray {t rest} (ht : t.kind ∈ binaryOperators) :
      Reads stop (.rule .primary) [] (t :: rest) [⟨t, .strayOperator⟩]
        (.error ⟨t, .strayOperator⟩)
  | alien {rest} (hf : AtFront Alien rest) :
      Reads stop (.rule .primary) [] rest [⟨front stop rest, .expressionExpected⟩]
        (.error ⟨front stop rest, .expressionExpected⟩)
  | group {opening us closing rest reports e} (ho : opening.kind = .leftParen)
      (he : Reads stop (.rule .assignment) us (closing :: rest) reports (.ok e))
      (hc : closing.kind = .rightParen) :
      Reads stop (.rule .primary) (opening :: (us ++ [closing])) rest reports (.ok (.grouping e))
  | groupUnclosed {opening us rest reports e} (ho : opening.kind = .leftParen)
      (he : Reads stop (.rule .assignment) us rest reports (.ok e))
      (hf : AtFront (·.kind ≠ .rightParen) rest) :
      Reads stop (.rule .primary) (opening :: us) rest
        (reports ++ [⟨front stop rest, .groupUnclosed⟩]) (.error ⟨front stop rest, .groupUnclosed⟩)
  | groupFailed {opening us rest reports err} (ho : opening.kind = .leftParen)
      (he : Reads stop (.rule .assignment) us rest reports (.error err)) :
      Reads stop (.rule .primary) (opening :: us) rest reports (.error err)
  | prefixed {op us rest reports result} (ho : op.kind ∈ unaryOperators)
      (he : Reads stop (.operand .unary) us rest reports result) :
      Reads stop (.rule .unary) (op :: us) rest reports (result.map (.unary op))
  | unprefixed {us rest reports result} (hf : AtFront (·.kind ∉ unaryOperators) (us ++ rest))
      (he : Reads stop (.rule .primary) us rest reports result) :
      Reads stop (.rule .unary) us rest reports result
  /-- An operand that does not begin with a stray operator. -/
  | steady {r us rest reports result} (he : Reads stop (.rule r) us rest reports result)
      (hs : ∀ err, result = .error err → us = [] → rest ≠ [] → err.cause.isStray = false) :
      Reads stop (.operand r) us rest reports result
  /-- An operand behind a stray operator, dropped together with it. -/
  | dropped {r op us rest reports err later result}
      (he : Reads stop (.rule r) [] (op :: (us ++ rest)) reports (.error err))
      (hs : err.cause.isStray = true)
      (hl : Reads stop (.operand r) us rest later result) :
      Reads stop (.operand r) (op :: us) rest (reports ++ later) (result.map fun _ => .invalid)
  | level {l us vs rest reports later left result}
      (he : Reads stop (.operand l.operandRule) us (vs ++ rest) reports (.ok left))
      (hl : Reads stop (.chain l left) vs rest later result) :
      Reads stop (.rule (.binary l)) (us ++ vs) rest (reports ++ later) result
  | levelFailed {l us rest reports err}
      (he : Reads stop (.operand l.operandRule) us rest reports (.error err)) :
      Reads stop (.rule (.binary l)) us rest reports (.error err)
  | chainEnd {l left rest} (hf : AtFront (·.kind ∉ l.operators) rest) :
      Reads stop (.chain l left) [] rest [] (.ok left)
  | chainMore {l left op us vs rest reports later right result} (ho : op.kind ∈ l.operators)
      (he : Reads stop (.operand l.operandRule) us (vs ++ rest) reports (.ok right))
      (hl : Reads stop (.chain l (.binary left op right)) vs rest later result) :
      Reads stop (.chain l left) (op :: (us ++ vs)) rest (reports ++ later) result
  | chainFailed {l left op us rest reports err} (ho : op.kind ∈ l.operators)
      (he : Reads stop (.operand l.operandRule) us rest reports (.error err)) :
      Reads stop (.chain l left) (op :: us) rest reports (.error err)
  | plain {us rest reports e}
      (he : Reads stop (.rule (.binary .equality)) us rest reports (.ok e))
      (hf : AtFront (·.kind ≠ .equal) rest) :
      Reads stop (.rule .assignment) us rest reports (.ok e)
  | targetFailed {us rest reports err}
      (he : Reads stop (.rule (.binary .equality)) us rest reports (.error err)) :
      Reads stop (.rule .assignment) us rest reports (.error err)
  | assigned {us eq vs rest reports later n v}
      (he : Reads stop (.rule (.binary .equality)) us (eq :: (vs ++ rest)) reports (.ok (.name n)))
      (hq : eq.kind = .equal)
      (hl : Reads stop (.rule .assignment) vs rest later (.ok v)) :
      Reads stop (.rule .assignment) (us ++ eq :: vs) rest (reports ++ later) (.ok (.assign n v))
  /-- An assignment to something that is no name: it is reported and the target returned. -/
  | mistargeted {us eq vs rest reports later e v}
      (he : Reads stop (.rule (.binary .equality)) us (eq :: (vs ++ rest)) reports (.ok e))
      (hq : eq.kind = .equal) (hn : ∀ n, e ≠ .name n)
      (hl : Reads stop (.rule .assignment) vs rest later (.ok v)) :
      Reads stop (.rule .assignment) (us ++ eq :: vs) rest
        (reports ++ (later ++ [⟨eq, .targetInvalid⟩])) (.ok e)
  | valueFailed {us eq vs rest reports later e err}
      (he : Reads stop (.rule (.binary .equality)) us (eq :: (vs ++ rest)) reports (.ok e))
      (hq : eq.kind = .equal)
      (hl : Reads stop (.rule .assignment) vs rest later (.error err)) :
      Reads stop (.rule .assignment) (us ++ eq :: vs) rest (reports ++ later) (.error err)

/-! ## 4. The functions do what the relation says -/

theorem literal?_kind {t : Token} {v : Value} (h : literal? t = some v) :
    t.kind ≠ .leftParen ∧ t.kind ≠ .identifier ∧ t.kind ∉ binaryOperators := by
  unfold literal? at h
  split at h <;> simp_all [binaryOperators]

theorem expect_front {stop : Token} {kind : Kind} {cause : SyntaxError.Cause} {ts : List Token}
    (h : AtFront (·.kind ≠ kind) ts) :
    expect stop kind cause ts = .fail ⟨front stop ts, cause⟩ := by
  cases ts with
  | nil => rfl
  | cons t rest => simp_all [expect]

/-- The rule for groups on what stands behind the opening parenthesis. -/
theorem parse_group {stop opening : Token} (h : opening.kind = .leftParen) (ts : List Token) :
    Rule.parse stop .primary (opening :: ts) =
      ((Rule.parse stop .assignment ts).andThen ts fun e rest =>
        (expect stop .rightParen .groupUnclosed rest).map fun _ => .grouping e).behind 1 := by
  rw [Rule.parse, if_pos h]

theorem parse_alien {stop : Token} {ts : List Token} (h : AtFront Alien ts) :
    Rule.parse stop .primary ts = .fail ⟨front stop ts, .expressionExpected⟩ := by
  cases ts with
  | nil => rw [Rule.parse]; rfl
  | cons t rest =>
      obtain ⟨h1, h2, h3, h4⟩ := (atFront_cons ..).mp h
      rw [Rule.parse, if_neg h1, if_neg h2, if_neg h3, h4]
      rfl

theorem parse_unprefixed {stop : Token} {ts : List Token}
    (h : AtFront (·.kind ∉ unaryOperators) ts) :
    Rule.parse stop .unary ts = Rule.parse stop .primary ts := by
  cases ts with
  | nil => rw [Rule.parse]
  | cons t rest => rw [Rule.parse, if_neg ((atFront_cons ..).mp h)]

theorem operand_steady {stop : Token} {r : Rule} {us rest : List Token}
    {reports : List SyntaxError} {result : Except SyntaxError Expr}
    (h : Rule.parse stop r (us ++ rest) = ⟨us.length, reports, result⟩)
    (hs : ∀ err, result = .error err → us = [] → rest ≠ [] → err.cause.isStray = false) :
    operand stop r (us ++ rest) = ⟨us.length, reports, result⟩ := by
  rw [operand.eq_def, h]
  cases result with
  | ok e => rfl
  | error err =>
      cases us with
      | cons u us => rfl
      | nil =>
          cases rest with
          | nil => rfl
          | cons t rest =>
              have hf := hs err rfl rfl (List.cons_ne_nil t rest)
              simp [hf]

theorem operand_dropped {stop : Token} {r : Rule} {op : Token} {ts : List Token}
    {reports : List SyntaxError} {err : SyntaxError}
    (h : Rule.parse stop r (op :: ts) = ⟨0, reports, .error err⟩)
    (hs : err.cause.isStray = true) :
    operand stop r (op :: ts) =
      let later := operand stop r ts
      ⟨1 + later.used, reports ++ later.reports, later.result.map fun _ => .invalid⟩ := by
  rw [operand.eq_def, h]
  simp [hs, Step.behind, Step.followedBy]

/-- A level that begins with an operand goes on with its operators. -/
theorem parse_level {stop : Token} {l : Level} {us rest : List Token}
    {reports : List SyntaxError} {left : Expr}
    (h : operand stop l.operandRule (us ++ rest) = ⟨us.length, reports, .ok left⟩) :
    Rule.parse stop (.binary l) (us ++ rest) =
      ⟨us.length + (chain stop l left rest).used, reports ++ (chain stop l left rest).reports,
        (chain stop l left rest).result⟩ := by
  rw [Rule.parse, h]
  simp [Step.followedBy]

theorem chain_end {stop : Token} {l : Level} {left : Expr} {ts : List Token}
    (h : AtFront (·.kind ∉ l.operators) ts) : chain stop l left ts = .done left := by
  cases ts with
  | nil => rw [chain]
  | cons t rest => rw [chain, if_neg ((atFront_cons ..).mp h)]

theorem chain_more {stop : Token} {l : Level} {left right : Expr} {op : Token}
    {us rest : List Token} {reports : List SyntaxError} (ho : op.kind ∈ l.operators)
    (h : operand stop l.operandRule (us ++ rest) = ⟨us.length, reports, .ok right⟩) :
    chain stop l left (op :: (us ++ rest)) =
      let later := chain stop l (.binary left op right) rest
      ⟨1 + (us.length + later.used), reports ++ later.reports, later.result⟩ := by
  rw [chain, if_pos ho, h]
  simp [Step.followedBy, Step.behind]

/-- An assignment without an equals sign behind its target is its target. -/
theorem parse_plain {stop : Token} {us rest : List Token} {reports : List SyntaxError}
    {result : Except SyntaxError Expr}
    (h : Rule.parse stop (.binary .equality) (us ++ rest) = ⟨us.length, reports, result⟩)
    (hf : ∀ e, result = .ok e → AtFront (·.kind ≠ .equal) rest) :
    Rule.parse stop .assignment (us ++ rest) = ⟨us.length, reports, result⟩ := by
  cases hts : us ++ rest with
  | nil => rw [Rule.parse, ← hts, h]
  | cons first others =>
      rw [Rule.parse, ← hts, h]
      simp only [List.drop_left]
      cases result with
      | error err => rfl
      | ok e =>
          cases rest with
          | nil => rfl
          | cons t rest => exact if_neg ((atFront_cons ..).mp (hf e rfl))

/-- What stands behind `us` and one token more, counted from the second token on. -/
theorem drop_behind {us rest others : List Token} {eq first : Token}
    (h : us ++ eq :: rest = first :: others) : others.drop us.length = rest := by
  have hd : (us ++ eq :: rest).drop (us.length + 1) = rest := by simp
  rw [h] at hd
  exact hd

theorem parse_assignment {stop : Token} {us : List Token} {eq : Token} {rest : List Token}
    {reports : List SyntaxError} {e : Expr}
    (h : Rule.parse stop (.binary .equality) (us ++ eq :: rest) = ⟨us.length, reports, .ok e⟩)
    (hq : eq.kind = .equal) :
    Rule.parse stop .assignment (us ++ eq :: rest) =
      let value := (Rule.parse stop .assignment rest).assignedTo e eq
      ⟨us.length + (1 + value.used), reports ++ value.reports, value.result⟩ := by
  obtain ⟨first, others, hts⟩ : ∃ first others, us ++ eq :: rest = first :: others :=
    List.exists_cons_of_ne_nil (by simp)
  rw [hts, Rule.parse, ← hts, h]
  simp [hq, drop_behind hts, Step.followedBy, Step.behind]

/-- **The functions do what the relation says.** -/
theorem Reads.run_eq {stop : Token} {job : Job} {us rest : List Token}
    {reports : List SyntaxError} {result : Except SyntaxError Expr}
    (h : Reads stop job us rest reports result) :
    job.run stop (us ++ rest) = ⟨us.length, reports, result⟩ := by
  induction h with
  | literal ht =>
      obtain ⟨h1, h2, h3⟩ := literal?_kind ht
      simp only [Job.run, List.singleton_append]
      rw [Rule.parse, if_neg h1, if_neg h2, if_neg h3, ht]
      rfl
  | name ht =>
      simp only [Job.run, List.singleton_append]
      rw [Rule.parse, if_neg (by rw [ht]; decide), if_pos ht]
      rfl
  | stray ht =>
      simp only [Job.run, List.nil_append]
      rw [Rule.parse, if_neg (fun h => by simp [h, binaryOperators] at ht),
        if_neg (fun h => by simp [h, binaryOperators] at ht), if_pos ht]
      rfl
  | alien hf => exact parse_alien hf
  | @group opening us closing rest reports e ho he hc ih =>
      simp only [Job.run] at ih ⊢
      have hts : opening :: (us ++ [closing]) ++ rest = opening :: (us ++ closing :: rest) := by
        simp
      rw [hts, parse_group ho, Step.andThen_of_ok (by rw [ih]), ih]
      simp [expect, hc, Step.followedBy, Step.behind, Step.map, Step.one, Except.map,
        Nat.add_comm 1]
  | groupUnclosed ho he hf ih =>
      simp only [Job.run] at ih ⊢
      rw [List.cons_append, parse_group ho, Step.andThen_of_ok (by rw [ih]), ih]
      simp [expect_front hf, Step.followedBy, Step.behind, Step.map, Step.fail, Except.map,
        Nat.add_comm 1]
  | groupFailed ho he ih =>
      simp only [Job.run] at ih ⊢
      rw [List.cons_append, parse_group ho, Step.andThen_of_error (by rw [ih]), ih]
      simp [Step.behind, Nat.add_comm]
  | prefixed ho he ih =>
      simp only [Job.run] at ih ⊢
      rw [List.cons_append, Rule.parse, if_pos ho, ih]
      simp [Step.behind, Step.map, Nat.add_comm]
  | unprefixed hf he ih =>
      simp only [Job.run] at ih ⊢
      rw [parse_unprefixed hf, ih]
  | steady he hs ih => exact operand_steady ih hs
  | dropped he hs hl ihe ihl =>
      simp only [Job.run] at ihe ihl ⊢
      rw [List.cons_append, operand_dropped ihe hs, ihl]
      simp [Nat.add_comm]
  | level he hl ihe ihl =>
      simp only [Job.run] at ihe ihl ⊢
      rw [List.append_assoc, parse_level ihe, ihl]
      simp
  | levelFailed he ih =>
      simp only [Job.run] at ih ⊢
      rw [Rule.parse, ih]
  | chainEnd hf => exact chain_end hf
  | chainMore ho he hl ihe ihl =>
      simp only [Job.run] at ihe ihl ⊢
      rw [List.cons_append, List.append_assoc, chain_more ho ihe, ihl]
      simp [Nat.add_comm 1]
  | chainFailed ho he ih =>
      simp only [Job.run] at ih ⊢
      rw [List.cons_append, chain, if_pos ho, ih]
      simp [Step.behind, Nat.add_comm]
  | plain he hf ih => exact parse_plain ih fun _ _ => hf
  | targetFailed he ih =>
      refine parse_plain ih fun _ h => ?_
      cases h
  | assigned _ hq _ ihe ihl | mistargeted _ hq _ _ ihe ihl | valueFailed _ hq _ ihe ihl =>
      simp only [Job.run] at ihe ihl ⊢
      rw [List.append_assoc, List.cons_append, parse_assignment ihe hq, ihl]
      simp [Step.assignedTo, Nat.add_comm 1]

/-! ## 5. The relation says something about all tokens -/

/-- The relation says what a job does to `ts`. -/
def Known (stop : Token) (job : Job) (ts : List Token) : Prop :=
  ∃ us rest reports result, ts = us ++ rest ∧ Reads stop job us rest reports result

section Known

variable {stop : Token}

theorem known_primary : ∀ ts : List Token,
    (∀ t rest, ts = t :: rest → Known stop (.rule .assignment) rest) →
    Known stop (.rule .primary) ts
  | [], _ => ⟨[], [], _, _, rfl, .alien (atFront_nil _)⟩
  | t :: rest, ih => by
      by_cases hp : t.kind = .leftParen
      · obtain ⟨us, rest, reports, result, rfl, h⟩ := ih t rest rfl
        cases result with
        | error err => exact ⟨t :: us, rest, _, _, rfl, .groupFailed hp h⟩
        | ok e =>
            cases rest with
            | nil => exact ⟨t :: us, [], _, _, rfl, .groupUnclosed hp h (atFront_nil _)⟩
            | cons c rest =>
                by_cases hc : c.kind = .rightParen
                · exact ⟨t :: (us ++ [c]), rest, _, _, by simp, .group hp h hc⟩
                · exact ⟨t :: us, c :: rest, _, _, rfl,
                    .groupUnclosed hp h ((atFront_cons ..).mpr hc)⟩
      by_cases hi : t.kind = .identifier
      · exact ⟨[t], rest, _, _, rfl, .name hi⟩
      by_cases hb : t.kind ∈ binaryOperators
      · exact ⟨[], t :: rest, _, _, rfl, .stray hb⟩
      cases hl : literal? t with
      | some v => exact ⟨[t], rest, _, _, rfl, .literal hl⟩
      | none => exact ⟨[], t :: rest, _, _, rfl, .alien ((atFront_cons ..).mpr ⟨hp, hi, hb, hl⟩)⟩

theorem known_unary {ts : List Token} (hp : Known stop (.rule .primary) ts)
    (ih : ∀ t rest, ts = t :: rest → Known stop (.operand .unary) rest) :
    Known stop (.rule .unary) ts := by
  by_cases hf : AtFront (·.kind ∉ unaryOperators) ts
  · obtain ⟨us, rest, reports, result, rfl, h⟩ := hp
    exact ⟨us, rest, reports, result, rfl, .unprefixed hf h⟩
  · obtain ⟨t, rest, rfl, ht⟩ := exists_of_not_atFront hf
    obtain ⟨us, rest, reports, result, rfl, h⟩ := ih t rest rfl
    exact ⟨t :: us, rest, _, _, rfl, .prefixed ht h⟩

theorem known_operand {r : Rule} {ts : List Token} (hr : Known stop (.rule r) ts)
    (ih : ∀ t rest, ts = t :: rest → Known stop (.operand r) rest) :
    Known stop (.operand r) ts := by
  obtain ⟨us, rest, reports, result, rfl, h⟩ := hr
  cases result with
  | ok e => exact ⟨us, rest, _, _, rfl, .steady h fun _ he => nomatch he⟩
  | error err =>
      by_cases hs : us = [] ∧ rest ≠ [] ∧ err.cause.isStray = true
      · obtain ⟨rfl, hne, hstray⟩ := hs
        obtain ⟨t, others, rfl⟩ := List.exists_cons_of_ne_nil hne
        obtain ⟨vs, rest, later, result, rfl, hl⟩ := ih t others rfl
        exact ⟨t :: vs, rest, _, _, rfl, .dropped h hstray hl⟩
      · refine ⟨us, rest, _, _, rfl, .steady h fun err' he hus hne => ?_⟩
        cases he
        exact Bool.eq_false_iff.mpr fun hstray => hs ⟨hus, hne, hstray⟩

theorem known_level {l : Level} {ts : List Token} (ho : Known stop (.operand l.operandRule) ts)
    (ih : ∀ left n, Known stop (.chain l left) (ts.drop n)) :
    Known stop (.rule (.binary l)) ts := by
  obtain ⟨us, rest, reports, result, rfl, h⟩ := ho
  cases result with
  | error err => exact ⟨us, rest, _, _, rfl, .levelFailed h⟩
  | ok left =>
      obtain ⟨vs, rest', later, result, hrest, hl⟩ := ih left us.length
      rw [List.drop_left] at hrest
      subst hrest
      exact ⟨us ++ vs, rest', _, _, by simp, .level h hl⟩

theorem known_chain {l : Level} {left : Expr} {ts : List Token}
    (iho : ∀ t rest, ts = t :: rest → Known stop (.operand l.operandRule) rest)
    (ihc : ∀ t rest n left, ts = t :: rest → Known stop (.chain l left) (rest.drop n)) :
    Known stop (.chain l left) ts := by
  by_cases hf : AtFront (·.kind ∉ l.operators) ts
  · exact ⟨[], ts, _, _, rfl, .chainEnd hf⟩
  · obtain ⟨t, rest, rfl, ht⟩ := exists_of_not_atFront hf
    obtain ⟨us, rest, reports, result, rfl, h⟩ := iho t rest rfl
    cases result with
    | error err => exact ⟨t :: us, rest, _, _, rfl, .chainFailed ht h⟩
    | ok right =>
        obtain ⟨vs, rest', later, result, hrest, hl⟩ :=
          ihc t _ us.length (.binary left t right) rfl
        rw [List.drop_left] at hrest
        subst hrest
        exact ⟨t :: (us ++ vs), rest', _, _, by simp, .chainMore ht h hl⟩

theorem known_assignment {ts : List Token} (hq : Known stop (.rule (.binary .equality)) ts)
    (ih : ∀ t rest n, ts = t :: rest → Known stop (.rule .assignment) (rest.drop n)) :
    Known stop (.rule .assignment) ts := by
  obtain ⟨us, rest, reports, result, rfl, h⟩ := hq
  cases result with
  | error err => exact ⟨us, rest, _, _, rfl, .targetFailed h⟩
  | ok e =>
      by_cases hf : AtFront (·.kind ≠ .equal) rest
      · exact ⟨us, rest, _, _, rfl, .plain h hf⟩
      · obtain ⟨eq, rest, rfl, heq⟩ := exists_of_not_atFront hf
        obtain ⟨t, others, hts⟩ := List.exists_cons_of_ne_nil
          (List.append_ne_nil_of_right_ne_nil us (List.cons_ne_nil eq rest))
        obtain ⟨vs, rest', later, result, hvs, hl⟩ := ih t others us.length hts
        rw [drop_behind hts] at hvs
        subst hvs
        have hsplit : us ++ eq :: (vs ++ rest') = us ++ eq :: vs ++ rest' := by simp
        cases result with
        | error err => exact ⟨us ++ eq :: vs, rest', _, _, hsplit, .valueFailed h heq hl⟩
        | ok v =>
            by_cases hn : ∃ n, e = .name n
            · obtain ⟨n, rfl⟩ := hn
              exact ⟨us ++ eq :: vs, rest', _, _, hsplit, .assigned h heq hl⟩
            · exact ⟨us ++ eq :: vs, rest', _, _, hsplit,
                .mistargeted h heq (not_exists.mp hn) hl⟩

/-- **The relation says what a job does, whatever the tokens.** -/
theorem exists_reads (stop : Token) (job : Job) (ts : List Token) : Known stop job ts :=
  -- by the measure that ends the functions: fewer tokens, or the same ones and a tighter rule
  match job with
  | .rule .primary =>
      known_primary ts fun t rest h =>
        have : effort rest (Job.rule .assignment).rank < effort ts 0 :=
          h ▸ effort_drop_tail t rest 0 _ (by decide)
        exists_reads stop (.rule .assignment) rest
  | .rule .unary =>
      have : effort ts (Job.rule .primary).rank < effort ts 1 := effort_drop ts 0 (by decide)
      known_unary (exists_reads stop (.rule .primary) ts) fun t rest h =>
        have : effort rest (Job.operand .unary).rank < effort ts 1 :=
          h ▸ effort_drop_tail t rest 0 _ (by decide)
        exists_reads stop (.operand .unary) rest
  | .rule (.binary l) =>
      have : effort ts (Job.operand l.operandRule).rank < effort ts (Rule.binary l).rank :=
        effort_drop ts 0 l.rank_operandRule
      known_level (exists_reads stop (.operand l.operandRule) ts) fun left n =>
        have : effort (ts.drop n) 0 < effort ts (Rule.binary l).rank :=
          effort_drop ts n (Nat.zero_lt_of_lt l.rank_operandRule)
        exists_reads stop (.chain l left) (ts.drop n)
  | .rule .assignment =>
      have : effort ts (Rule.binary .equality).rank < effort ts Rule.assignment.rank :=
        effort_drop ts 0 (by decide)
      known_assignment (exists_reads stop (.rule (.binary .equality)) ts) fun t rest n h =>
        have : effort (rest.drop n) Rule.assignment.rank < effort ts Rule.assignment.rank :=
          h ▸ effort_drop_tail t rest n _ (by decide)
        exists_reads stop (.rule .assignment) (rest.drop n)
  | .operand r =>
      have : effort ts r.rank < effort ts (r.rank + 1) := effort_drop ts 0 (Nat.lt_succ_self _)
      known_operand (exists_reads stop (.rule r) ts) fun t rest h =>
        have : effort rest (r.rank + 1) < effort ts (r.rank + 1) :=
          h ▸ effort_drop_tail t rest 0 _ (by have := r.rank_le; omega)
        exists_reads stop (.operand r) rest
  | .chain l left =>
      known_chain
        (fun t rest h =>
          have : effort rest (l.operandRule.rank + 1) < effort ts 0 :=
            h ▸ effort_drop_tail t rest 0 _ (by have := l.operandRule.rank_le; omega)
          exists_reads stop (.operand l.operandRule) rest)
        fun t rest n left h =>
          have : effort (rest.drop n) 0 < effort ts 0 := h ▸ effort_drop_tail t rest n _ (by decide)
          exists_reads stop (.chain l left) (rest.drop n)
termination_by effort ts job.rank

end Known

/-- **What a job does is what the relation says of it.** -/
theorem reads_run (stop : Token) (job : Job) (ts : List Token) :
    ∃ us rest, ts = us ++ rest ∧ (job.run stop ts).used = us.length ∧
      Reads stop job us rest (job.run stop ts).reports (job.run stop ts).result := by
  obtain ⟨us, rest, reports, result, rfl, h⟩ := exists_reads stop job ts
  rw [h.run_eq]
  exact ⟨us, rest, rfl, rfl, h⟩

end Lox
