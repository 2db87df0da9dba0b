/-
  File:      Lox/Proofs/Acceptance.lean
  Subject:   The parser accepts exactly the grammar and builds its trees.

  * `Reads.derives` -- what is read without a report is derived by the grammar;
  * `Derives.reads` -- what the grammar derives is read without a report, with the same tree, when
    nothing follows that could continue it;
  * `derivesProgram_of_clean`, `DerivesProgram.declarations_eq` -- the same of whole programs;
  * `parse_accepts_grammar` -- both directions together.
-/
import Lox.Proofs.Conduct
import Lox.Proofs.Grammar
import Lox.Tree.Program

namespace Lox

open Token (Kind)

variable {stop : Token} {job : Job} {us rest : List Token} {reports : List SyntaxError}
  {result : Except SyntaxError Expr}

/-! ## 1. What is read without a report is derived -/

/-- The tokens of a job are derived by the grammar. The tokens of a chain are links that continue
    what stands to its left. -/
def Job.Derives : Job → List Token → Expr → Prop
  | .rule r, ts, e => Lox.Derives r ts e
  | .operand r, ts, e => Lox.Derives r ts e
  | .chain l left, ts, e => ∃ links : List Link, (∀ k ∈ links, k.op.kind ∈ l.operators) ∧
      (∀ k ∈ links, Lox.Derives l.operandRule k.tokens k.tree) ∧
      ts = links.flatMap Link.all ∧ e = foldLinks left links

theorem chainRules_mem (l : Level) : (l, l.operators, l.operandRule) ∈ chainRules := by
  cases l <;> decide

theorem chainRules_eq {l : Level} {ops : List Kind} {r : Rule} (h : (l, ops, r) ∈ chainRules) :
    ops = l.operators ∧ r = l.operandRule := by
  simp only [chainRules, List.mem_cons, Prod.mk.injEq, List.not_mem_nil, or_false] at h
  rcases h with ⟨rfl, rfl, rfl⟩ | ⟨rfl, rfl, rfl⟩ | ⟨rfl, rfl, rfl⟩ | ⟨rfl, rfl, rfl⟩ <;>
    exact ⟨rfl, rfl⟩

theorem denotes_of_literal? {t : Token} {v : Value} (h : literal? t = some v) : Denotes t v := by
  unfold literal? at h
  split at h <;> cases h
  case h_1 hk => exact .falseWord hk
  case h_2 hk => exact .trueWord hk
  case h_3 hk => exact .nilWord hk
  case h_4 hk => exact .number hk
  case h_5 hk => exact .string hk

theorem foldLinks_eq_name {n : Token} : ∀ (links : List Link) (first : Expr),
    foldLinks first links = .name n → links = [] ∧ first = .name n
  | [], _, h => ⟨rfl, h⟩
  | k :: links, first, h => by
      obtain ⟨-, hb⟩ := foldLinks_eq_name links (.binary first k.op k.tree) h
      cases hb

/-- A tree that is a name comes from that name alone. -/
theorem Derives.eq_name {r : Rule} {ts : List Token} {e : Expr} (h : Derives r ts e) :
    ∀ n, e = .name n → ts = [n] ∧ n.kind = .identifier := by
  induction h with
  | assign | unary | literal | group =>
      intro n he
      cases he
  | unassigned _ ih | primary _ ih => exact ih
  | chain _ _ _ _ ih =>
      intro n he
      obtain ⟨rfl, rfl⟩ := foldLinks_eq_name _ _ he
      obtain ⟨hts, hn⟩ := ih n rfl
      exact ⟨by simpa using hts, hn⟩
  | name ht =>
      intro n he
      cases he
      exact ⟨rfl, ht⟩

/-- **What is read without a report is derived by the grammar.** -/
theorem Reads.derives (h : Reads stop job us rest reports result) :
    reports = [] → ∃ e, result = .ok e ∧ job.Derives us e := by
  induction h with
  | literal ht => exact fun _ => ⟨_, rfl, Derives.literal (denotes_of_literal? ht)⟩
  | name ht => exact fun _ => ⟨_, rfl, Derives.name ht⟩
  | stray | alien => exact fun hr => nomatch hr
  | group ho _ hc ih =>
      intro hr
      obtain ⟨e, he, hd⟩ := ih hr
      cases he
      exact ⟨_, rfl, Derives.group ho hd hc⟩
  | groupUnclosed | mistargeted => exact fun hr => by simp at hr
  | groupFailed _ _ ih | chainFailed _ _ ih | levelFailed _ ih | targetFailed _ ih =>
      intro hr
      obtain ⟨e, he, -⟩ := ih hr
      cases he
  | prefixed ho _ ih =>
      intro hr
      obtain ⟨e, rfl, hd⟩ := ih hr
      refine ⟨_, rfl, Derives.unary ?_ hd⟩
      simpa [unaryOperators] using ho
  | unprefixed _ _ ih =>
      intro hr
      obtain ⟨e, rfl, hd⟩ := ih hr
      exact ⟨e, rfl, Derives.primary hd⟩
  | steady _ _ ih => exact ih
  | dropped _ _ _ ih _ =>
      -- the error that was recovered from has been reported
      intro hr
      obtain ⟨e, he, -⟩ := ih (List.append_eq_nil_iff.mp hr).1
      cases he
  | @level l _ _ _ _ _ left _ _ _ ihe ihl =>
      intro hr
      obtain ⟨hr, hr'⟩ := List.append_eq_nil_iff.mp hr
      obtain ⟨e, he, hd⟩ := ihe hr
      cases he
      obtain ⟨e', rfl, links, ho, hk, rfl, rfl⟩ := ihl hr'
      exact ⟨_, rfl, Derives.chain (chainRules_mem l) hd ho hk⟩
  | chainEnd => exact fun _ => ⟨_, rfl, [], by simp, by simp, rfl, rfl⟩
  | @chainMore l left op us _ _ _ _ right _ ho _ _ ihe ihl =>
      intro hr
      obtain ⟨hr, hr'⟩ := List.append_eq_nil_iff.mp hr
      obtain ⟨e, he, hd⟩ := ihe hr
      cases he
      obtain ⟨e', rfl, links, hos, hks, rfl, rfl⟩ := ihl hr'
      refine ⟨_, rfl, ⟨op, us, right⟩ :: links, ?_, ?_, rfl, rfl⟩
      · exact List.forall_mem_cons.mpr ⟨ho, hos⟩
      · exact List.forall_mem_cons.mpr ⟨hd, hks⟩
  | plain _ _ ih =>
      intro hr
      obtain ⟨e, he, hd⟩ := ih hr
      cases he
      exact ⟨_, rfl, Derives.unassigned hd⟩
  | assigned _ hq _ ihe ihl =>
      intro hr
      obtain ⟨hr, hr'⟩ := List.append_eq_nil_iff.mp hr
      obtain ⟨e, he, hd⟩ := ihe hr
      cases he
      obtain ⟨v, hv, hdv⟩ := ihl hr'
      cases hv
      obtain ⟨rfl, hn⟩ := Derives.eq_name hd _ rfl
      exact ⟨_, rfl, Derives.assign hn hq hdv⟩
  | valueFailed _ _ _ _ ih =>
      intro hr
      obtain ⟨e, he, -⟩ := ih (List.append_eq_nil_iff.mp hr).2
      cases he

theorem ReadsStmt.derives {result : Except SyntaxError Stmt}
    (h : ReadsStmt stop us rest reports result) (hr : reports = []) :
    ∃ s, result = .ok s ∧ DerivesStmt us s := by
  cases h with
  | ended ho he hs =>
      obtain ⟨e, h, hd⟩ := he.derives hr
      cases h
      cases ho with
      | expression => exact ⟨_, rfl, .expression hd hs⟩
      | print hw => exact ⟨_, rfl, .print hw hd hs⟩
      | var hw hn hq => exact ⟨_, rfl, .varInit hw hn hq hd hs⟩
  | failed _ he =>
      obtain ⟨e, h, -⟩ := he.derives hr
      cases h
  | declared hw hn hs => exact ⟨_, rfl, .var hw hn hs⟩
  | unended => simp at hr
  | undeclared | nameless => cases hr

/-! ## 2. What is derived is read without a report -/

/-- The kinds that would continue what a rule has read. -/
def Rule.continuations : Rule → List Kind
  | .primary => []
  | .unary => []
  | .binary .factor => [.slash, .star]
  | .binary .term => [.minus, .plus, .slash, .star]
  | .binary .comparison =>
    [.greater, .greaterEqual, .less, .lessEqual, .minus, .plus, .slash, .star]
  | .binary .equality => binaryOperators
  | .assignment => .equal :: binaryOperators

theorem Level.operators_continue (l : Level) :
    ∀ k ∈ l.operators, k ∈ (Rule.binary l).continuations := by
  cases l <;> decide

theorem Level.operandRule_continue (l : Level) :
    ∀ k ∈ l.operandRule.continuations, k ∈ (Rule.binary l).continuations := by
  cases l <;> decide

/-- No operator of a level continues an operand of it. -/
theorem Level.operators_end (l : Level) :
    ∀ k ∈ l.operators, k ∉ l.operandRule.continuations := by
  cases l <;> decide

theorem Denotes.literal? {t : Token} {v : Value} (h : Denotes t v) : literal? t = some v := by
  cases h with
  | number h | string h | trueWord h | falseWord h | nilWord h => simp [Lox.literal?, h]

/-- A rule that succeeds is a good operand. -/
theorem Reads.operand {r : Rule} {e : Expr} (h : Reads stop (.rule r) us rest reports (.ok e)) :
    Reads stop (.operand r) us rest reports (.ok e) :=
  .steady h fun _ he => nomatch he

/-- An operand without an operator behind it is a whole level. -/
theorem Reads.level_of_operand {l : Level} {e : Expr}
    (h : Reads stop (.rule l.operandRule) us rest [] (.ok e))
    (hf : AtFront (·.kind ∉ l.operators) rest) :
    Reads stop (.rule (.binary l)) us rest [] (.ok e) := by
  have hl : Reads stop (.rule (.binary l)) (us ++ []) rest ([] ++ []) (.ok e) :=
    .level h.operand (.chainEnd hf)
  rw [List.append_nil] at hl
  exact hl

/-- A name is read as the target of an assignment. -/
theorem reads_target {name : Token} (hn : name.kind = .identifier)
    (hf : AtFront (·.kind ∉ binaryOperators) rest) :
    Reads stop (.rule (.binary .equality)) [name] rest [] (.ok (.name name)) := by
  have hl : ∀ l : Level, AtFront (·.kind ∉ l.operators) rest :=
    fun l => hf.imp fun _ ht hk => ht (l.operators_binary _ hk)
  have hu : Reads stop (.rule .unary) [name] rest [] (.ok (.name name)) :=
    .unprefixed (by simp [hn, unaryOperators]) (.name hn)
  have hfactor := Reads.level_of_operand (l := .factor) hu (hl _)
  have hterm := Reads.level_of_operand (l := .term) hfactor (hl _)
  have hcomparison := Reads.level_of_operand (l := .comparison) hterm (hl _)
  exact Reads.level_of_operand (l := .equality) hcomparison (hl _)

/-- In front of links an operand of the level is not continued, if not by what follows them. -/
theorem atFront_linked {l : Level} {links : List Link}
    (ho : ∀ k ∈ links, k.op.kind ∈ l.operators)
    (hf : AtFront (·.kind ∉ l.operandRule.continuations) rest) :
    AtFront (·.kind ∉ l.operandRule.continuations) (links.flatMap Link.all ++ rest) := by
  cases links with
  | nil => exact hf
  | cons k links => exact (atFront_cons ..).mpr (l.operators_end _ (ho k List.mem_cons_self))

/-- In front of links, or of what ends a level, an operand of the level is not continued. -/
theorem atFront_links {l : Level} {links : List Link}
    (ho : ∀ k ∈ links, k.op.kind ∈ l.operators)
    (hf : AtFront (·.kind ∉ (Rule.binary l).continuations) rest) :
    AtFront (·.kind ∉ l.operandRule.continuations) (links.flatMap Link.all ++ rest) :=
  atFront_linked ho (hf.imp fun _ ht hk => ht (l.operandRule_continue _ hk))

/-- Links whose operands are read without a report are read as a chain. -/
theorem reads_chain {l : Level} {links : List Link}
    (hf : AtFront (·.kind ∉ (Rule.binary l).continuations) rest) :
    (∀ k ∈ links, k.op.kind ∈ l.operators) →
    (∀ k ∈ links, ∀ rest, AtFront (·.kind ∉ l.operandRule.continuations) rest →
      Reads stop (.rule l.operandRule) k.tokens rest [] (.ok k.tree)) →
    ∀ left, Reads stop (.chain l left) (links.flatMap Link.all) rest []
      (.ok (foldLinks left links)) := by
  induction links with
  | nil =>
      intro _ _ left
      exact .chainEnd (hf.imp fun t ht hk => ht (l.operators_continue _ hk))
  | cons k links ih =>
      intro ho hk left
      have hos := fun k' hm => ho k' (List.mem_cons_of_mem _ hm)
      have hks := fun k' hm => hk k' (List.mem_cons_of_mem _ hm)
      have hop := hk k List.mem_cons_self _ (atFront_links hos hf)
      exact .chainMore (ho k List.mem_cons_self) hop.operand (ih hos hks _)

/-- **What the grammar derives is read without a report**, unless something behind it continues
    it. -/
theorem Derives.reads {r : Rule} {ts : List Token} {e : Expr} (h : Derives r ts e) :
    ∀ rest, AtFront (·.kind ∉ r.continuations) rest →
      Reads stop (.rule r) ts rest [] (.ok e) := by
  induction h with
  | @assign name eq ts v hn hq _ ih =>
      intro rest hf
      have htarget : Reads stop (.rule (.binary .equality)) [name] (eq :: (ts ++ rest)) []
          (.ok (.name name)) := reads_target hn (by simp [hq, binaryOperators])
      exact .assigned htarget hq (ih rest hf)
  | unassigned _ ih =>
      intro rest hf
      refine .plain (ih rest (hf.imp fun t ht hk => ht (List.mem_cons_of_mem _ hk))) ?_
      exact hf.imp fun t ht hk => ht (hk ▸ List.mem_cons_self)
  | chain hl _ ho _ ihf ihk =>
      intro rest hf
      obtain ⟨rfl, rfl⟩ := chainRules_eq hl
      exact .level (ihf _ (atFront_links ho hf)).operand (reads_chain hf ho ihk _)
  | unary ho _ ih =>
      intro rest hf
      have hop := (ih rest hf).operand
      exact .prefixed (by simpa [unaryOperators] using ho) hop
  | @primary ts e he ih =>
      intro rest hf
      refine .unprefixed ?_ (ih rest hf)
      cases he with
      | literal hv => cases hv <;> simp_all [unaryOperators]
      | name ht => simp [ht, unaryOperators]
      | group ho => simp [ho, unaryOperators]
  | literal hv => exact fun _ _ => .literal hv.literal?
  | name ht => exact fun _ _ => .name ht
  | group ho _ hc ih =>
      intro rest _
      refine .group ho (ih _ ?_) hc
      simp [hc, Rule.continuations, binaryOperators]

/-- What an expression takes begins with neither of the two words for statements. -/
theorem Reads.opens_expression {semi : Token} (h : Reads stop job us rest reports result)
    (hs : semi.kind = .semicolon) (others : List Token) :
    AtFront (fun t => t.kind ≠ .varWord ∧ t.kind ≠ .printWord) (us ++ semi :: others) := by
  cases us with
  | nil => simp [hs]
  | cons t us =>
      have ht := h.takes t List.mem_cons_self
      rw [List.cons_append, atFront_cons]
      constructor <;> intro hk <;> rw [hk] at ht <;> revert ht <;> decide

theorem DerivesStmt.reads {ts : List Token} {s : Stmt} (h : DerivesStmt ts s) (rest : List Token) :
    ReadsStmt stop ts rest [] (.ok s) := by
  have hread : ∀ {us e semi}, Derives .assignment us e → semi.kind = .semicolon →
      Reads stop (.rule .assignment) us (semi :: rest) [] (.ok e) := by
    intro us e semi he hs
    exact he.reads _ (by simp [hs, Rule.continuations, binaryOperators])
  cases h with
  | var hw hn hs => exact .declared hw hn hs
  | varInit hw hn hq he hs => exact .ended (.var hw hn hq) (hread he hs) hs
  | print hw he hs => exact .ended (.print hw) (hread he hs) hs
  | expression he hs =>
      exact .ended (.expression ((hread he hs).opens_expression hs rest)) (hread he hs) hs

/-! ## 3. Programs -/

theorem DerivesStmt.ne_nil {ts : List Token} {s : Stmt} (h : DerivesStmt ts s) : ts ≠ [] := by
  cases h <;> simp

theorem DerivesStmt.declaration_eq {ts : List Token} {s : Stmt} (h : DerivesStmt ts s)
    (rest : List Token) : declaration stop (ts ++ rest) = ⟨ts.length, [], some s⟩ :=
  (h.reads rest).declaration_eq

/-- **Declarations without a report are those of a derived program.** -/
theorem derivesProgram_of_clean (stop : Token) : ∀ ts : List Token,
    (∀ d ∈ declarations stop ts, d.reports = []) →
    DerivesProgram ts ((declarations stop ts).filterMap (·.tree))
  | [], _ => by
      rw [declarations]
      exact .nil
  | t :: ts, h => by
      obtain ⟨us, rest, reports, result, hts, hread⟩ := exists_readsStmt stop (t :: ts)
      have hreports : reports = [] := by
        have hd := h (declaration stop (t :: ts)) (by rw [declarations]; exact List.mem_cons_self)
        rw [hts, hread.declaration_eq] at hd
        cases result <;> exact hd
      obtain ⟨s, rfl, hs⟩ := hread.derives hreports
      have hd : declaration stop (us ++ rest) = ⟨us.length, reports, some s⟩ :=
        hread.declaration_eq
      have hcons := declarations_cons hs.ne_nil (by rw [hd])
      have hlt := length_lt_of_append hts hs.ne_nil
      rw [hts, hcons, hd] at h ⊢
      exact .cons hs (derivesProgram_of_clean stop rest fun d hm => h d (List.mem_cons_of_mem _ hm))
termination_by ts => ts.length
decreasing_by exact hlt

/-- **A derived program is declared without a report, and with its own trees.** -/
theorem DerivesProgram.declarations_eq (stop : Token) {ts : List Token} {ss : List Stmt}
    (h : DerivesProgram ts ss) :
    (∀ d ∈ declarations stop ts, d.reports = []) ∧
      (declarations stop ts).filterMap (·.tree) = ss := by
  induction h with
  | nil => simp [declarations]
  | @cons ts us s ss hs _ ih =>
      have hd : declaration stop (ts ++ us) = ⟨ts.length, [], some s⟩ := hs.declaration_eq us
      rw [declarations_cons hs.ne_nil (by rw [hd]), hd]
      exact ⟨List.forall_mem_cons.mpr ⟨rfl, ih.1⟩, by simp [ih.2]⟩

theorem parse_diagnostics_eq_nil {r : Reporter} {ts : List Token} :
    (r.parse stop ts).diagnostics = [] ↔ ∀ d ∈ declarations stop ts, d.reports = [] := by
  simp [Reporter.parse, List.flatMap_eq_nil_iff]

/-- What comes of declarations that report nothing. -/
theorem parse_of_clean {r : Reporter} {ts : List Token} (hr : r.hadError = false)
    (h : ∀ d ∈ declarations stop ts, d.reports = []) :
    (r.parse stop ts).statements = (declarations stop ts).filterMap (·.tree) ∧
      (r.parse stop ts).reporter = r := by
  have hn : ((declarations stop ts).flatMap (·.reports)) = [] := List.flatMap_eq_nil_iff.mpr h
  simp [Reporter.parse, hn, Reporter.reportAll, hr]

/-- **The parser accepts exactly the grammar, and what it returns are the grammar's trees.** A
    parse under a reporter without an error reports nothing if and only if the tokens derive a
    program.  Then the statements are the trees of that derivation, the leaves of the trees are
    the tokens one by one, and no other derivation has other trees. -/
theorem parse_accepts_grammar (r : Reporter) (hr : r.hadError = false) (stop : Token)
    (ts : List Token) :
    ((r.parse stop ts).diagnostics = [] ↔ ∃ ss, DerivesProgram ts ss) ∧
    (∀ ss, DerivesProgram ts ss →
      (r.parse stop ts).statements = ss ∧ (r.parse stop ts).reporter = r ∧
        Covering (ss.flatMap Stmt.frontier) ts) ∧
    (∀ ss ss', DerivesProgram ts ss → DerivesProgram ts ss' → ss = ss') := by
  refine ⟨⟨fun h => ?_, ?_⟩, fun ss h => ?_, fun ss ss' h h' => ?_⟩
  · exact ⟨_, derivesProgram_of_clean stop ts (parse_diagnostics_eq_nil.mp h)⟩
  · rintro ⟨ss, h⟩
    exact parse_diagnostics_eq_nil.mpr (h.declarations_eq stop).1
  · obtain ⟨hclean, rfl⟩ := h.declarations_eq stop
    obtain ⟨hs, hrep⟩ := parse_of_clean hr hclean
    exact ⟨hs, hrep, h.covers⟩
  · rw [← (h.declarations_eq stop).2, ← (h'.declarations_eq stop).2]

/-- `x = 1 - y - 2;` is a program: one assignment, of a difference that folds to the left. -/
theorem parse_accepts_difference :
    let x : Token := { kind := .identifier, lexeme := "x" }
    let eq : Token := { kind := .equal, lexeme := "=" }
    let one : Token := { kind := .number, lexeme := "1", literal := .number 1 }
    let minus : Token := { kind := .minus, lexeme := "-" }
    let y : Token := { kind := .identifier, lexeme := "y" }
    let two : Token := { kind := .number, lexeme := "2", literal := .number 2, line := 2 }
    let semi : Token := { kind := .semicolon, lexeme := ";", line := 2 }
    ({} : Reporter).hadError = false ∧
      (({} : Reporter).parse (Token.endOn 2) [x, eq, one, minus, y, minus, two, semi]).statements =
        [.expression (.assign x (.binary (.binary (.literal (.number 1)) minus (.name y)) minus
          (.literal (.number 2))))] := by
  intro x eq one minus y two semi
  have unary : ∀ {ts e}, Derives .primary ts e → Derives (.binary .factor) ts e :=
    fun h => .lone (chainRules_mem .factor) (.primary h)
  have hone : Derives (.binary .factor) [one] (.literal (.number 1)) :=
    unary (.literal (.number rfl))
  have htwo : Derives (.binary .factor) [two] (.literal (.number 2)) :=
    unary (.literal (.number rfl))
  have hdiff : Derives (.binary .term) ([one] ++ [⟨minus, [y], .name y⟩,
      ⟨minus, [two], .literal (.number 2)⟩].flatMap Link.all) (foldLinks _ _) :=
    .chain (chainRules_mem .term) hone (by simp [Level.operators, minus])
      (List.forall_mem_cons.mpr ⟨unary (.name rfl), List.forall_mem_singleton.mpr htwo⟩)
  have hvalue : Derives .assignment _ _ := .unassigned
    (.lone (chainRules_mem .equality) (.lone (chainRules_mem .comparison) hdiff))
  have hprogram : DerivesProgram [x, eq, one, minus, y, minus, two, semi] [.expression _] :=
    .cons (.expression (.assign rfl rfl hvalue) rfl) .nil
  exact ⟨rfl, ((parse_accepts_grammar {} rfl (Token.endOn 2) _).2.1 _ hprogram).1⟩

end Lox
