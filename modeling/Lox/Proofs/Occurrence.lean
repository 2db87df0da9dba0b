/-
  File:      Lox/Proofs/Occurrence.lean
  Subject:   Where an expression stands inside a derivation.

  A derivation with a hole has tokens before the hole, tokens behind it and a tree around it.  What
  stands inside a derived program, be it an operand of a factor, an operand of a prefix or a whole
  assignment, is found again as what fills such a hole.

  * `Expr.Context`, `Stmt.Context`, `Program.Context` -- trees with a hole, and `fill` for each;
  * `Surrounds`, `SurroundsStmt`, `SurroundsProgram` -- derivations with a hole for a rule;
  * `Expr.rule?` -- the rule that a subtree is derived by, if it is no chain of operators;
  * `Derives.surrounds`, `DerivesProgram.surrounds` -- every such subtree fills a hole.
-/
import Lox.Proofs.Grammar

namespace Lox

/-! ## 1. Trees with a hole -/

/-- An expression with a hole. -/
inductive Expr.Context where
  | hole
  | unary (op : Token) (operand : Context)
  /-- The hole stands to the left of the operator. -/
  | left (c : Context) (op : Token) (other : Expr)
  /-- The hole stands to the right of the operator. -/
  | right (other : Expr) (op : Token) (c : Context)
  | grouping (inner : Context)
  | assign (target : Token) (value : Context)

namespace Expr.Context

/-- The expression with `e` in the hole. -/
def fill (e : Expr) : Expr.Context → Expr
  | .hole => e
  | .unary op c => .unary op (c.fill e)
  | .left c op other => .binary (c.fill e) op other
  | .right other op c => .binary other op (c.fill e)
  | .grouping c => .grouping (c.fill e)
  | .assign target c => .assign target (c.fill e)

/-- A chain of links behind an operand with a hole. -/
def links (c : Expr.Context) (ks : List Link) : Expr.Context :=
  ks.foldl (fun left k => .left left k.op k.tree) c

theorem fill_links (c : Expr.Context) (ks : List Link) (e : Expr) :
    (c.links ks).fill e = foldLinks (c.fill e) ks := by
  induction ks generalizing c with
  | nil => rfl
  | cons k ks ih => exact ih (.left c k.op k.tree)

end Expr.Context

/-- A statement with a hole. -/
inductive Stmt.Context where
  | expression (c : Expr.Context)
  | print (c : Expr.Context)
  | var (target : Token) (c : Expr.Context)

/-- The statement with `e` in the hole. -/
def Stmt.Context.fill (e : Expr) : Stmt.Context → Stmt
  | .expression c => .expression (c.fill e)
  | .print c => .print (c.fill e)
  | .var target c => .var target (some (c.fill e))

/-- Statements one of which has a hole. -/
structure Program.Context where
  before : List Stmt
  here : Stmt.Context
  behind : List Stmt

/-- The statements with `e` in the hole. -/
def Program.Context.fill (e : Expr) (c : Program.Context) : List Stmt :=
  c.before ++ c.here.fill e :: c.behind

/-! ## 2. Derivations with a hole -/

/-- The rule derives the tokens `before`, something that `q` derives, and the tokens `behind`; the
    tree is that of the derivation. -/
inductive Surrounds (q : Rule) : Rule → List Token → Expr.Context → List Token → Prop
  | hole : Surrounds q q [] .hole []
  | value {name eq before c behind} (hn : name.kind = .identifier) (hq : eq.kind = .equal)
      (h : Surrounds q .assignment before c behind) :
      Surrounds q .assignment (name :: eq :: before) (.assign name c) behind
  | unassigned {before c behind} (h : Surrounds q (.binary .equality) before c behind) :
      Surrounds q .assignment before c behind
  /-- The hole stands in the first operand of a chain. -/
  | first {l ops r before c behind links} (hl : (l, ops, r) ∈ chainRules)
      (h : Surrounds q r before c behind)
      (ho : ∀ k ∈ links, k.op.kind ∈ ops) (hk : ∀ k ∈ links, Derives r k.tokens k.tree) :
      Surrounds q (.binary l) before (c.links links) (behind ++ links.flatMap Link.all)
  /-- The hole stands behind an operator of a chain. -/
  | later {l ops r ts left op before c behind links} (hl : (l, ops, r) ∈ chainRules)
      (hleft : Derives (.binary l) ts left) (hop : op.kind ∈ ops)
      (h : Surrounds q r before c behind)
      (ho : ∀ k ∈ links, k.op.kind ∈ ops) (hk : ∀ k ∈ links, Derives r k.tokens k.tree) :
      Surrounds q (.binary l) (ts ++ op :: before) ((Expr.Context.right left op c).links links)
        (behind ++ links.flatMap Link.all)
  | prefixed {op before c behind} (ho : op.kind = .bang ∨ op.kind = .minus)
      (h : Surrounds q .unary before c behind) :
      Surrounds q .unary (op :: before) (.unary op c) behind
  | primary {before c behind} (h : Surrounds q .primary before c behind) :
      Surrounds q .unary before c behind
  | group {opening before c behind closing} (ho : opening.kind = .leftParen)
      (h : Surrounds q .assignment before c behind) (hc : closing.kind = .rightParen) :
      Surrounds q .primary (opening :: before) (.grouping c) (behind ++ [closing])

/-- A declaration with a hole. -/
inductive SurroundsStmt (q : Rule) : List Token → Stmt.Context → List Token → Prop
  | var {word name eq before c behind semi} (hw : word.kind = .varWord)
      (hn : name.kind = .identifier) (hq : eq.kind = .equal)
      (h : Surrounds q .assignment before c behind) (hs : semi.kind = .semicolon) :
      SurroundsStmt q (word :: name :: eq :: before) (.var name c) (behind ++ [semi])
  | print {word before c behind semi} (hw : word.kind = .printWord)
      (h : Surrounds q .assignment before c behind) (hs : semi.kind = .semicolon) :
      SurroundsStmt q (word :: before) (.print c) (behind ++ [semi])
  | expression {before c behind semi} (h : Surrounds q .assignment before c behind)
      (hs : semi.kind = .semicolon) :
      SurroundsStmt q before (.expression c) (behind ++ [semi])

/-- A program with a hole. -/
inductive SurroundsProgram (q : Rule) : List Token → Program.Context → List Token → Prop
  | within {ts ss before c behind us rs} (hb : DerivesProgram ts ss)
      (h : SurroundsStmt q before c behind) (ha : DerivesProgram us rs) :
      SurroundsProgram q (ts ++ before) ⟨ss, c, rs⟩ (behind ++ us)

/-! ## 3. Subtrees fill holes -/

/-- The loosest rule that an expression is derived by, if it is no chain of operators. -/
def Expr.rule? : Expr → Option Rule
  | .literal _ | .unary _ _ | .grouping _ | .name _ => some .unary
  | .assign _ _ => some .assignment
  | .binary _ _ _ | .invalid | .misplaced => none

/-- The rule with the holes for what a rule derives: primary expressions stand where unary ones
    do. -/
def Rule.host : Rule → Rule
  | .primary => .unary
  | r => r

theorem chainRules_host {l : Level} {ops : List Token.Kind} {r : Rule}
    (hl : (l, ops, r) ∈ chainRules) : r.host = r := by
  simp only [chainRules, List.mem_cons, Prod.mk.injEq, List.not_mem_nil, or_false] at hl
  rcases hl with ⟨-, -, rfl⟩ | ⟨-, -, rfl⟩ | ⟨-, -, rfl⟩ | ⟨-, -, rfl⟩ <;> rfl

/-- A chain with more links is a chain still. -/
theorem rule?_foldLinks {first : Expr} (h : first.rule? = none) (links : List Link) :
    (foldLinks first links).rule? = none := by
  induction links generalizing first with
  | nil => exact h
  | cons k links ih => exact ih rfl

/-- No rule but the loosest derives an assignment. -/
theorem Derives.rule_of_assignment {r : Rule} {ts : List Token} {e : Expr} (h : Derives r ts e)
    (he : e.rule? = some .assignment) : r = .assignment := by
  induction h with
  | assign | unassigned => rfl
  | @chain l ops r ts first links hl _ _ _ ih =>
      cases links with
      | nil =>
          rw [ih he] at hl
          simp [chainRules] at hl
      | cons k links =>
          have hnone : (foldLinks first (k :: links)).rule? = none := rule?_foldLinks rfl links
          rw [hnone] at he
          cases he
  | primary _ ih => cases ih he
  | unary | literal | name | group => cases he

/-- The derivation of an assignment. -/
theorem Derives.of_assign {ts : List Token} {target : Token} {v : Expr}
    (h : Derives .assignment ts (.assign target v)) :
    ∃ eq us, ts = target :: eq :: us ∧ target.kind = .identifier ∧ eq.kind = .equal ∧
      Derives .assignment us v := by
  cases h with
  | @assign _ eq us _ hn hq hv => exact ⟨eq, us, rfl, hn, hq, hv⟩
  | unassigned he => cases he.rule_of_assignment rfl

/-- A subtree of a chain stands in its first operand or in that of a link, unless it is a part of
    the chain. -/
theorem foldLinks_eq_fill {e : Expr} {q : Rule} (he : e.rule? = some q) :
    ∀ (links : List Link) (first : Expr) (c : Expr.Context), foldLinks first links = c.fill e →
      (∃ c' : Expr.Context, first = c'.fill e ∧ c = c'.links links) ∨
      ∃ earlier k later, ∃ c' : Expr.Context, links = earlier ++ k :: later ∧ k.tree = c'.fill e ∧
        c = (Expr.Context.right (foldLinks first earlier) k.op c').links later
  | [], first, c, h => .inl ⟨c, h, rfl⟩
  | k :: links, first, c, h => by
      rcases foldLinks_eq_fill he links (.binary first k.op k.tree) c h with
        ⟨c', hc', rfl⟩ | ⟨earlier, k', later, c', rfl, htree, rfl⟩
      · cases c' with
        | hole =>
            rw [← show _ = e from hc'] at he
            cases he
        | left c'' op right =>
            cases hc'
            exact .inl ⟨c'', rfl, rfl⟩
        | right other op c'' =>
            obtain ⟨rfl, rfl, htree⟩ := Expr.binary.inj hc'
            exact .inr ⟨[], k, links, c'', rfl, htree, rfl⟩
        | unary | grouping | assign => cases hc'
      · exact .inr ⟨k :: earlier, k', later, c', rfl, htree, rfl⟩

/-- **Every subtree that is no chain fills a hole of the derivation.** -/
theorem Derives.surrounds {r : Rule} {ts : List Token} {x : Expr} (h : Derives r ts x) :
    ∀ (c : Expr.Context) (e : Expr) (q : Rule), e.rule? = some q → x = c.fill e →
      ∃ before us behind, ts = before ++ (us ++ behind) ∧ Surrounds q r.host before c behind ∧
        Derives q us e := by
  induction h with
  | @assign name eq ts v hn hq hv ih =>
      intro c e q he hx
      cases c with
      | hole =>
          cases hx
          cases he
          exact ⟨[], _, [], by simp, .hole, .assign hn hq hv⟩
      | assign target c =>
          cases hx
          obtain ⟨before, us, behind, rfl, hs, hd⟩ := ih c e q he rfl
          exact ⟨name :: eq :: before, us, behind, rfl, .value hn hq hs, hd⟩
      | unary | left | right | grouping => cases hx
  | unassigned _ ih =>
      intro c e q he hx
      obtain ⟨before, us, behind, hts, hs, hd⟩ := ih c e q he hx
      exact ⟨before, us, behind, hts, .unassigned hs, hd⟩
  | @chain l ops r ts first links hl hf ho hk ihf ihk =>
      intro c e q he hx
      rcases foldLinks_eq_fill he links first c hx with
        ⟨c', hc', rfl⟩ | ⟨earlier, k, later, c', rfl, htree, rfl⟩
      · obtain ⟨before, us, behind, rfl, hs, hd⟩ := ihf c' e q he hc'
        rw [chainRules_host hl] at hs
        exact ⟨before, us, behind ++ links.flatMap Link.all, by simp, .first hl hs ho hk, hd⟩
      · obtain ⟨hoe, hol⟩ := List.forall_mem_append.mp ho
        obtain ⟨hop, hol⟩ := List.forall_mem_cons.mp hol
        obtain ⟨hke, hkl⟩ := List.forall_mem_append.mp hk
        obtain ⟨-, hkl⟩ := List.forall_mem_cons.mp hkl
        obtain ⟨before, us, behind, hts, hs, hd⟩ := ihk k (by simp) c' e q he htree
        rw [chainRules_host hl] at hs
        -- what stands before the operator is a chain by itself
        have hleft : Derives (.binary l) (ts ++ earlier.flatMap Link.all)
            (foldLinks first earlier) := .chain hl hf hoe hke
        exact ⟨ts ++ earlier.flatMap Link.all ++ k.op :: before, us,
          behind ++ later.flatMap Link.all, by simp [Link.all, hts],
          .later hl hleft hop hs hol hkl, hd⟩
  | @unary op ts x ho hx' ih =>
      intro c e q he hx
      cases c with
      | hole =>
          cases hx
          cases he
          exact ⟨[], _, [], by simp, .hole, .unary ho hx'⟩
      | unary op c =>
          cases hx
          obtain ⟨before, us, behind, rfl, hs, hd⟩ := ih c e q he rfl
          exact ⟨op :: before, us, behind, rfl, .prefixed ho hs, hd⟩
      | left | right | grouping | assign => cases hx
  | primary _ ih => exact ih
  | @literal t v hv =>
      intro c e q he hx
      cases c with
      | hole =>
          cases hx
          cases he
          exact ⟨[], [t], [], rfl, .hole, .primary (.literal hv)⟩
      | unary | left | right | grouping | assign => cases hx
  | @name t ht =>
      intro c e q he hx
      cases c with
      | hole =>
          cases hx
          cases he
          exact ⟨[], [t], [], rfl, .hole, .primary (.name ht)⟩
      | unary | left | right | grouping | assign => cases hx
  | @group opening ts closing x ho hx' hc ih =>
      intro c e q he hx
      cases c with
      | hole =>
          cases hx
          cases he
          exact ⟨[], _, [], by simp, .hole, .primary (.group ho hx' hc)⟩
      | grouping c =>
          cases hx
          obtain ⟨before, us, behind, rfl, hs, hd⟩ := ih c e q he rfl
          exact ⟨opening :: before, us, behind ++ [closing], by simp,
            .primary (.group ho hs hc), hd⟩
      | unary | left | right | assign => cases hx

theorem DerivesStmt.surrounds {ts : List Token} {s : Stmt} (h : DerivesStmt ts s)
    (c : Stmt.Context) (e : Expr) (q : Rule) (he : e.rule? = some q) (hs : s = c.fill e) :
    ∃ before us behind, ts = before ++ (us ++ behind) ∧ SurroundsStmt q before c behind ∧
      Derives q us e := by
  cases h with
  | var => cases c <;> cases hs
  | @varInit word name eq ts semi x hw hn hq hx hsemi =>
      cases c with
      | var target c =>
          cases hs
          obtain ⟨before, us, behind, rfl, hin, hd⟩ := hx.surrounds c e q he rfl
          exact ⟨word :: name :: eq :: before, us, behind ++ [semi], by simp,
            .var hw hn hq hin hsemi, hd⟩
      | expression | print => cases hs
  | @print word ts semi x hw hx hsemi =>
      cases c with
      | print c =>
          cases hs
          obtain ⟨before, us, behind, rfl, hin, hd⟩ := hx.surrounds c e q he rfl
          exact ⟨word :: before, us, behind ++ [semi], by simp, .print hw hin hsemi, hd⟩
      | expression | var => cases hs
  | @expression ts semi x hx hsemi =>
      cases c with
      | expression c =>
          cases hs
          obtain ⟨before, us, behind, rfl, hin, hd⟩ := hx.surrounds c e q he rfl
          exact ⟨before, us, behind ++ [semi], by simp, .expression hin hsemi, hd⟩
      | print | var => cases hs

/-- The tokens of a derived program, cut where its statements are. -/
theorem DerivesProgram.split {ts : List Token} {ss : List Stmt} (h : DerivesProgram ts ss) :
    ∀ earlier s later, ss = earlier ++ s :: later →
      ∃ us vs ws, ts = us ++ (vs ++ ws) ∧ DerivesProgram us earlier ∧ DerivesStmt vs s ∧
        DerivesProgram ws later := by
  induction h with
  | nil =>
      intro earlier s later hss
      simp at hss
  | @cons ts us s' ss hs hss' ih =>
      intro earlier s later hss
      cases earlier with
      | nil =>
          cases hss
          exact ⟨[], ts, us, rfl, .nil, hs, hss'⟩
      | cons s'' earlier =>
          cases hss
          obtain ⟨us, vs, ws, rfl, hus, hvs, hws⟩ := ih earlier s later rfl
          exact ⟨ts ++ us, vs, ws, by simp, .cons hs hus, hvs, hws⟩

/-- **Every subtree of a derived program that is no chain fills a hole of the program.** -/
theorem DerivesProgram.surrounds {ts : List Token} {ss : List Stmt} (h : DerivesProgram ts ss)
    (c : Program.Context) (e : Expr) (q : Rule) (he : e.rule? = some q) (hss : ss = c.fill e) :
    ∃ before us behind, ts = before ++ (us ++ behind) ∧ SurroundsProgram q before c behind ∧
      Derives q us e := by
  obtain ⟨earlier, here, later⟩ := c
  obtain ⟨us, vs, ws, rfl, hus, hvs, hws⟩ := h.split earlier (here.fill e) later hss
  obtain ⟨before, xs, behind, rfl, hs, hd⟩ := hvs.surrounds here e q he rfl
  exact ⟨us ++ before, xs, behind ++ ws, by simp, .within hus hs hws, hd⟩

end Lox
