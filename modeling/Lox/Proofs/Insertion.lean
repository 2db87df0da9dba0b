/-
  File:      Lox/Proofs/Insertion.lean
  Subject:   Stray operators before an operand.

  Binary operators that are put before an operand lack their left operands.  They are reported one
  by one, the operand is dropped with them, and all that stands around it is read as before: to the
  rest of the program it makes no difference what fills the hole.  Only an assignment takes note
  when its target is dropped.

  * `Fills` -- what is read in the place of something that a rule derives;
  * `Surrounds.fills`, `SurroundsProgram.declaredAs` -- what stands around it is read as ever;
  * `Fills.strays`, `Fills.mistargeted` -- stray operators before an operand and before a target;
  * `strays_cost_one_operand` -- stray operators anywhere in an accepted program.
-/
import Lox.Proofs.Acceptance
import Lox.Proofs.Occurrence
import Lox.Proofs.Strays

namespace Lox

variable {stop : Token} {q r : Rule} {us rest : List Token} {reports : List SyntaxError} {e : Expr}

/-! ## 1. What fills a hole -/

/-- The job that reads what a rule derives: an operand may be read in the place of a unary
    expression. -/
def Rule.job : Rule → Job
  | .unary => .operand .unary
  | r => .rule r

/-- Before anything that does not continue it, `us` is read in the place of something that the rule
    derives, with these reports and as this tree. -/
def Fills (stop : Token) (q : Rule) (us : List Token) (reports : List SyntaxError) (e : Expr) :
    Prop :=
  ∀ rest, AtFront (·.kind ∉ q.continuations) rest → Reads stop q.job us rest reports (.ok e)

theorem Derives.fills (h : Derives q us e) : Fills stop q us [] e := by
  intro rest hf
  have hreads : Reads stop (.rule q) us rest [] (.ok e) := h.reads rest hf
  cases q with
  | unary => exact hreads.operand
  | assignment | binary | primary => exact hreads

/-- What fills the place of an operand of a level is read as an operand. -/
theorem Fills.operand {l : Level} (h : Fills stop l.operandRule us reports e)
    (hf : AtFront (·.kind ∉ l.operandRule.continuations) rest) :
    Reads stop (.operand l.operandRule) us rest reports (.ok e) := by
  cases l with
  | factor => exact h rest hf
  | equality | comparison | term => exact (h rest hf).operand

/-- What is read as a primary expression begins with no prefix. -/
theorem Reads.no_prefix (h : Reads stop (.rule .primary) us rest reports (.ok e)) :
    AtFront (·.kind ∉ unaryOperators) (us ++ rest) := by
  cases h with
  | literal ht => cases denotes_of_literal? ht <;> simp_all [unaryOperators]
  | name ht => simp [ht, unaryOperators]
  | group ho => simp [ho, unaryOperators]

/-! ## 2. What stands around a hole -/

/-- A chain behind links that the grammar derives. -/
theorem Reads.behind_links {l : Level} {vs : List Token} {result : Except SyntaxError Expr}
    (hf : AtFront (·.kind ∉ l.operandRule.continuations) (vs ++ rest)) :
    ∀ {links : List Link}, (∀ k ∈ links, k.op.kind ∈ l.operators) →
      (∀ k ∈ links, Derives l.operandRule k.tokens k.tree) →
      ∀ {left}, Reads stop (.chain l (foldLinks left links)) vs rest reports result →
        Reads stop (.chain l left) (links.flatMap Link.all ++ vs) rest reports result
  | [], _, _, _, h => h
  | k :: links, ho, hk, left, h => by
      obtain ⟨hop, ho⟩ := List.forall_mem_cons.mp ho
      obtain ⟨hright, hk⟩ := List.forall_mem_cons.mp hk
      have hfront := atFront_linked ho hf
      rw [← List.append_assoc] at hfront
      have hmore := Reads.chainMore hop (hright.reads _ hfront).operand (behind_links hf ho hk h)
      rw [← List.append_assoc] at hmore
      exact hmore

/-- A level that begins with a derived chain goes on where the chain ends. -/
theorem Derives.reads_behind {l : Level} {ts vs : List Token} {left : Expr}
    {result : Except SyntaxError Expr} (h : Derives (.binary l) ts left)
    (hf : AtFront (·.kind ∉ l.operandRule.continuations) (vs ++ rest))
    (hl : Reads stop (.chain l left) vs rest reports result) :
    Reads stop (.rule (.binary l)) (ts ++ vs) rest reports result := by
  cases h with
  | @chain _ ops r us first links hrules hfirst ho hk =>
      obtain ⟨rfl, rfl⟩ := chainRules_eq hrules
      have hfront := atFront_linked ho hf
      rw [← List.append_assoc] at hfront
      rw [List.append_assoc]
      exact .level (hfirst.reads _ hfront).operand (hl.behind_links hf ho hk)

/-- **What stands around a hole is read as ever**, whatever is read in the hole. -/
theorem Surrounds.fills {before behind : List Token} {c : Expr.Context}
    (h : Surrounds q r before c behind) (hin : Fills stop q us reports e) :
    Fills stop r (before ++ (us ++ behind)) reports (c.fill e) := by
  -- by the productions around the hole; all that they derive beside it reports nothing
  induction h with
  | hole =>
      rw [List.nil_append, List.append_nil]
      exact hin
  | @value name eq before c behind hn hq _ ih =>
      intro rest hf
      have htarget : Reads stop (.rule (.binary .equality)) [name]
          (eq :: (before ++ (us ++ behind) ++ rest)) [] (.ok (.name name)) :=
        reads_target hn (by simp [hq, binaryOperators])
      exact .assigned htarget hq (ih rest hf)
  | unassigned _ ih =>
      intro rest hf
      refine .plain (ih rest (hf.imp fun t ht hk => ht (List.mem_cons_of_mem _ hk))) ?_
      exact hf.imp fun t ht hk => ht (hk ▸ List.mem_cons_self)
  | @first l ops r before c behind links hl _ ho hk ih =>
      obtain ⟨rfl, rfl⟩ := chainRules_eq hl
      intro rest hf
      have hlevel := Reads.level (ih.operand (atFront_links ho hf))
        (reads_chain hf ho (fun k hm => (hk k hm).reads) _)
      rw [List.append_nil, ← Expr.Context.fill_links] at hlevel
      rw [List.append_assoc, List.append_assoc] at hlevel
      exact hlevel
  | @later l ops r ts left op before c behind links hl hleft hop _ ho hk ih =>
      obtain ⟨rfl, rfl⟩ := chainRules_eq hl
      intro rest hf
      have hmore : Reads stop (.chain l left) _ rest _ _ := .chainMore hop
        (ih.operand (atFront_links ho hf)) (reads_chain hf ho (fun k hm => (hk k hm).reads) _)
      have hlevel := hleft.reads_behind ((atFront_cons ..).mpr (l.operators_end _ hop)) hmore
      rw [List.append_nil] at hlevel
      rw [Expr.Context.fill_links]
      simpa only [Rule.job, Expr.Context.fill, List.append_assoc, List.cons_append] using hlevel
  | prefixed ho _ ih =>
      intro rest hf
      exact (Reads.prefixed (by simpa [unaryOperators] using ho) (ih rest hf)).operand
  | primary _ ih =>
      intro rest hf
      have hprimary := ih rest hf
      exact (Reads.unprefixed hprimary.no_prefix hprimary).operand
  | @group opening before c behind closing ho _ hc ih =>
      intro rest _
      have hinner := ih (closing :: rest) (by simp [hc, Rule.continuations, binaryOperators])
      have hgroup := Reads.group ho hinner hc
      rw [List.append_assoc, List.append_assoc] at hgroup
      exact hgroup

/-! ## 3. Whole programs -/

/-- Reading `ts` to the end, no declaration fails; these are the trees, and these the reports. -/
structure DeclaredAs (stop : Token) (ts : List Token) (ss : List Stmt)
    (reports : List SyntaxError) : Prop where
  trees : (declarations stop ts).map (·.tree) = ss.map some
  reports : (declarations stop ts).flatMap (·.reports) = reports

/-- A statement that is read, and what is declared behind it. -/
theorem DeclaredAs.cons {s : Stmt} {ss : List Stmt} {later : List SyntaxError}
    (hs : ReadsStmt stop us rest reports (.ok s)) (h : DeclaredAs stop rest ss later) :
    DeclaredAs stop (us ++ rest) (s :: ss) (reports ++ later) := by
  have hne : us ≠ [] := by
    cases hs with
    | ended => simp
    | declared => simp
  have hd : declaration stop (us ++ rest) = ⟨us.length, reports, some s⟩ := hs.declaration_eq
  have hcons := declarations_cons hne (by rw [hd])
  rw [hd] at hcons
  refine ⟨?_, ?_⟩
  · rw [hcons, List.map_cons, h.trees]
    rfl
  · rw [hcons, List.flatMap_cons, h.reports]

/-- A derived program, and what is declared behind it. -/
theorem DeclaredAs.behind {ts : List Token} {ss rs : List Stmt} (hts : DerivesProgram ts ss)
    (h : DeclaredAs stop rest rs reports) : DeclaredAs stop (ts ++ rest) (ss ++ rs) reports := by
  induction hts with
  | nil => exact h
  | cons hs _ ih =>
      rw [List.append_assoc]
      exact .cons (hs.reads _) ih

theorem DerivesProgram.declaredAs {ts : List Token} {ss : List Stmt} (h : DerivesProgram ts ss) :
    DeclaredAs stop ts ss [] := by
  have hnil : DeclaredAs stop [] [] [] := by
    constructor <;> rw [declarations] <;> rfl
  have hall := hnil.behind h
  rw [List.append_nil, List.append_nil] at hall
  exact hall

theorem SurroundsStmt.reads {before behind : List Token} {c : Stmt.Context}
    (h : SurroundsStmt q before c behind) (hin : Fills stop q us reports e) (rest : List Token) :
    ReadsStmt stop (before ++ (us ++ behind)) rest reports (.ok (c.fill e)) := by
  have hread : ∀ {before c behind semi}, Surrounds q .assignment before c behind →
      semi.kind = .semicolon → Reads stop (.rule .assignment) (before ++ (us ++ behind))
        (semi :: rest) reports (.ok (c.fill e)) := by
    intro before c behind semi h hs
    exact h.fills hin _ (by simp [hs, Rule.continuations, binaryOperators])
  cases h with
  | var hw hn hq h hs =>
      have hstmt := ReadsStmt.ended (.var hw hn hq) (hread h hs) hs
      rw [List.append_assoc, List.append_assoc] at hstmt
      exact hstmt
  | print hw h hs =>
      have hstmt := ReadsStmt.ended (.print hw) (hread h hs) hs
      rw [List.append_assoc, List.append_assoc] at hstmt
      exact hstmt
  | expression h hs =>
      have hopening := (hread h hs).opens_expression hs rest
      have hstmt := ReadsStmt.ended (.expression hopening) (hread h hs) hs
      rw [List.append_assoc, List.append_assoc] at hstmt
      exact hstmt

/-- **What stands around a hole of a program is declared as ever**, whatever is read in the hole. -/
theorem SurroundsProgram.declaredAs {before behind : List Token} {c : Program.Context}
    (h : SurroundsProgram q before c behind) (hin : Fills stop q us reports e) :
    DeclaredAs stop (before ++ (us ++ behind)) (c.fill e) reports := by
  cases h with
  | @within ts ss before c behind vs rs hb h ha =>
      have hhere := DeclaredAs.cons (h.reads hin vs) ha.declaredAs
      have hall := hhere.behind hb
      rw [List.append_nil] at hall
      simpa only [Program.Context.fill, List.append_assoc] using hall

/-! ## 4. Stray operators -/

/-- A stray operator before an operand: it is reported, and the operand is dropped. -/
theorem Fills.stray {op : Token} (h : Fills stop .unary us reports e)
    (ho : op.kind ∈ binaryOperators) (hm : op.kind ≠ .minus) :
    Fills stop .unary (op :: us) (⟨op, .strayOperator⟩ :: reports) .invalid := by
  intro rest hf
  have hfront : AtFront (·.kind ∉ unaryOperators) (op :: (us ++ rest)) :=
    (atFront_cons ..).mpr (not_unary_of_binary ho hm)
  exact .dropped (.unprefixed hfront (.stray ho)) rfl (h rest hf)

/-- **Stray operators before an operand** are reported one by one, and one operand is dropped. -/
theorem Fills.strays (h : Fills stop .unary us reports e) : ∀ {strays : List Token}, strays ≠ [] →
    (∀ t ∈ strays, t.kind ∈ binaryOperators ∧ t.kind ≠ .minus) →
    Fills stop .unary (strays ++ us) (strays.map (⟨·, .strayOperator⟩) ++ reports) .invalid
  | [], hne, _ => absurd rfl hne
  | [op], _, hs => by
      obtain ⟨ho, hm⟩ := hs op List.mem_cons_self
      exact h.stray ho hm
  | op :: op' :: strays, _, hs => by
      obtain ⟨⟨ho, hm⟩, hs⟩ := List.forall_mem_cons.mp hs
      exact (h.strays (List.cons_ne_nil op' strays) hs).stray ho hm

/-- An operand by itself is a whole level. -/
theorem Surrounds.lone {l : Level} (h : Surrounds q l.operandRule [] .hole []) :
    Surrounds q (.binary l) [] .hole [] := by
  have hlinks : ∀ p : Link → Prop, ∀ k ∈ ([] : List Link), p k := fun p k hk => by cases hk
  exact .first (chainRules_mem l) h (hlinks _) (hlinks _)

/-- What fills the place of an operand fills that of a target. -/
theorem Fills.target (h : Fills stop .unary us reports e) :
    Fills stop (.binary .equality) us reports e := by
  have hfactor : Surrounds .unary (.binary .factor) [] .hole [] := .lone .hole
  have hequality : Surrounds .unary (.binary .equality) [] .hole [] := .lone (.lone (.lone hfactor))
  have hfills := hequality.fills h
  rw [List.nil_append, List.append_nil] at hfills
  exact hfills

/-- An operand that is no name before an equals sign: the value is read, the assignment reported,
    and the operand stands for it. -/
theorem Fills.mistargeted {eq : Token} {vs : List Token} {v : Expr}
    (h : Fills stop .unary us reports e) (he : ∀ n, e ≠ .name n) (hq : eq.kind = .equal)
    (hv : Derives .assignment vs v) :
    Fills stop .assignment (us ++ eq :: vs) (reports ++ [⟨eq, .targetInvalid⟩]) e := by
  intro rest hf
  have htarget := h.target (eq :: (vs ++ rest)) (by simp [hq, Rule.continuations, binaryOperators])
  exact .mistargeted htarget hq he (hv.reads rest hf)

/-! ## 5. Insertion -/

/-- The token and the wording of a syntax error. -/
def Diagnostic.said? : Diagnostic → Option (Token × String)
  | .syntactic e => some (e.token, e.cause.message)
  | _ => none

/-- What a parse reports of declarations. -/
theorem DeclaredAs.said {ts : List Token} {ss : List Stmt} (h : DeclaredAs stop ts ss reports)
    (r : Reporter) :
    (r.parse stop ts).diagnostics.map Diagnostic.said? =
      reports.map fun e => some (e.token, e.cause.message) := by
  simp only [Reporter.parse, h.reports, List.map_map]
  rfl

/-- The statements of declarations are no others. -/
theorem DeclaredAs.unique {ts : List Token} {ss rs : List Stmt} {later : List SyntaxError}
    (h : DeclaredAs stop ts ss reports) (h' : DeclaredAs stop ts rs later) : ss = rs :=
  List.map_injective_iff.mpr (fun _ _ => Option.some.inj) (h.trees.symm.trans h'.trees)

/-- **Stray operators cost one operand.** Let a parse report nothing.  Then there are only good
    declarations, and every subtree of them that is an operand or an assignment stands at some place
    among the tokens.  Binary operators other than the minus sign, put before an operand, are
    reported one by one and in order; no declaration fails, and the trees are as before but for that
    operand, which is dropped.  Put before the target of an assignment, they are reported and then
    the equals sign is, and the assignment is what is dropped. -/
theorem strays_cost_one_operand (r : Reporter) (stop : Token) (ts : List Token)
    (hts : (r.parse stop ts).diagnostics = []) :
    ∃ ss : List Stmt, (declarations stop ts).map (·.tree) = ss.map some ∧
      (∀ (c : Program.Context) (e : Expr) (q : Rule), ss = c.fill e → e.rule? = some q →
        ∃ before us behind, ts = before ++ (us ++ behind) ∧
          SurroundsProgram q before c behind ∧ Derives q us e) ∧
      ∀ (strays before us behind : List Token) (c : Program.Context), strays ≠ [] →
        (∀ t ∈ strays, t.kind ∈ binaryOperators ∧ t.kind ≠ .minus) →
        ts = before ++ (us ++ behind) →
        let ts' := before ++ (strays ++ us ++ behind)
        let said := strays.map fun t => some (t, "Binary operator without left-hand operand.")
        (∀ e, SurroundsProgram .unary before c behind → Derives .unary us e →
          ss = c.fill e ∧
          (declarations stop ts').map (·.tree) = (c.fill .invalid).map some ∧
          (r.parse stop ts').diagnostics.map Diagnostic.said? = said) ∧
        (∀ name v, SurroundsProgram .assignment before c behind →
          Derives .assignment us (.assign name v) →
          ss = c.fill (.assign name v) ∧
          (declarations stop ts').map (·.tree) = (c.fill .invalid).map some ∧
          ∃ eq vs, us = name :: eq :: vs ∧ eq.kind = .equal ∧
            (r.parse stop ts').diagnostics.map Diagnostic.said? =
              said ++ [some (eq, "Invalid assignment target.")]) := by
  have hprogram := derivesProgram_of_clean stop ts (parse_diagnostics_eq_nil.mp hts)
  have hdeclared : DeclaredAs stop ts _ [] := hprogram.declaredAs
  refine ⟨_, hdeclared.trees, fun c e q hss he => hprogram.surrounds c e q he hss, ?_⟩
  intro strays before us behind c hne hstrays hsplit ts' said
  subst hsplit
  refine ⟨fun e hin he => ?_, fun name v hin he => ?_⟩
  · have hbefore := hin.declaredAs (he.fills : Fills stop _ _ _ _)
    have hbehind := hin.declaredAs ((he.fills : Fills stop _ _ _ _).strays hne hstrays)
    refine ⟨hdeclared.unique hbefore, hbehind.trees, ?_⟩
    rw [hbehind.said, List.append_nil, List.map_map]
    rfl
  · obtain ⟨eq, vs, rfl, hn, hq, hv⟩ := he.of_assign
    have htarget : Derives .unary [name] (.name name) := .primary (.name hn)
    have hbefore := hin.declaredAs (he.fills : Fills stop _ _ _ _)
    have hstray := (htarget.fills : Fills stop _ _ _ _).strays hne hstrays
    have hbehind := hin.declaredAs (hstray.mistargeted (fun n h => by cases h) hq hv)
    have hts' : ts' = before ++ (strays ++ [name] ++ eq :: vs ++ behind) := by simp [ts']
    rw [hts']
    refine ⟨hdeclared.unique hbefore, hbehind.trees, eq, vs, rfl, hq, ?_⟩
    rw [hbehind.said, List.append_nil, List.map_append, List.map_map]
    rfl

/-- `a = y * -x;` with a plus sign and a slash before `x`, and with both before `a`. -/
theorem strays_cost_one_factor :
    let a : Token := { kind := .identifier, lexeme := "a" }
    let eq : Token := { kind := .equal, lexeme := "=" }
    let y : Token := { kind := .identifier, lexeme := "y" }
    let star : Token := { kind := .star, lexeme := "*" }
    let minus : Token := { kind := .minus, lexeme := "-" }
    let plus : Token := { kind := .plus, lexeme := "+" }
    let slash : Token := { kind := .slash, lexeme := "/" }
    let x : Token := { kind := .identifier, lexeme := "x" }
    let semi : Token := { kind := .semicolon, lexeme := ";" }
    let stop := Token.endOn 1
    let atOperand := [a, eq, y, star, minus, plus, slash, x, semi]
    let atTarget := [plus, slash, a, eq, y, star, minus, x, semi]
    let stray := "Binary operator without left-hand operand."
    (({} : Reporter).parse stop [a, eq, y, star, minus, x, semi]).diagnostics = [] ∧
      (declarations stop atOperand).map (·.tree) =
        [some (.expression (.assign a (.binary (.name y) star (.unary minus .invalid))))] ∧
      (({} : Reporter).parse stop atOperand).diagnostics.map Diagnostic.said? =
        [some (plus, stray), some (slash, stray)] ∧
      (declarations stop atTarget).map (·.tree) = [some (.expression .invalid)] ∧
      (({} : Reporter).parse stop atTarget).diagnostics.map Diagnostic.said? =
        [some (plus, stray), some (slash, stray), some (eq, "Invalid assignment target.")] := by
  intro a eq y star minus plus slash x semi stop atOperand atTarget stray
  have hclean : (({} : Reporter).parse stop [a, eq, y, star, minus, x, semi]).diagnostics = [] := by
    decide +kernel
  obtain ⟨ss, -, -, hinsert⟩ := strays_cost_one_operand {} stop _ hclean
  have hstrays : ∀ t ∈ [plus, slash], t.kind ∈ binaryOperators ∧ t.kind ≠ .minus := by decide
  have hnone : ∀ p : Link → Prop, ∀ k ∈ ([] : List Link), p k := fun p k hk => by cases hk
  have hfactor : Derives (.binary .factor) [y] (.name y) :=
    .lone (chainRules_mem .factor) (.primary (.name rfl))
  have hx : Derives .unary [x] (.name x) := .primary (.name rfl)
  have hproduct : Surrounds .unary (.binary .factor) [y, star, minus]
      (.right (.name y) star (.unary minus .hole)) [] :=
    .later (chainRules_mem .factor) hfactor (by decide) (.prefixed (.inr rfl) .hole)
      (hnone _) (hnone _)
  have hvalue : Surrounds .unary .assignment [y, star, minus]
      (.right (.name y) star (.unary minus .hole)) [] :=
    .unassigned (.first (chainRules_mem .equality) (.first (chainRules_mem .comparison)
      (.first (chainRules_mem .term) hproduct (hnone _) (hnone _)) (hnone _) (hnone _))
      (hnone _) (hnone _))
  have hoperand : SurroundsProgram .unary [a, eq, y, star, minus]
      ⟨[], .expression (.assign a (.right (.name y) star (.unary minus .hole))), []⟩ [semi] :=
    .within .nil (.expression (.value rfl rfl hvalue) rfl) .nil
  have htarget : SurroundsProgram .assignment [] ⟨[], .expression .hole, []⟩ [semi] :=
    .within .nil (.expression .hole rfl) .nil
  have hfactors : Derives (.binary .factor) ([y] ++ [⟨star, [minus, x], _⟩].flatMap Link.all)
      (foldLinks (.name y) [⟨star, [minus, x], .unary minus (.name x)⟩]) :=
    .chain (chainRules_mem .factor) (.primary (.name rfl)) (by decide)
      (List.forall_mem_singleton.mpr (.unary (.inr rfl) hx))
  have hassign : Derives .assignment [a, eq, y, star, minus, x]
      (.assign a (.binary (.name y) star (.unary minus (.name x)))) :=
    .assign rfl rfl (.unassigned (.lone (chainRules_mem .equality)
      (.lone (chainRules_mem .comparison) (.lone (chainRules_mem .term) hfactors))))
  obtain ⟨-, htrees, hsaid⟩ :=
    (hinsert [plus, slash] [a, eq, y, star, minus] [x] [semi] _ (by decide) hstrays rfl).1 _
      hoperand hx
  obtain ⟨-, htrees', _, _, hus, -, hsaid'⟩ :=
    (hinsert [plus, slash] [] [a, eq, y, star, minus, x] [semi] _ (by decide) hstrays rfl).2 _ _
      htarget hassign
  cases hus
  exact ⟨hclean, htrees, hsaid, htrees', hsaid'⟩

end Lox
