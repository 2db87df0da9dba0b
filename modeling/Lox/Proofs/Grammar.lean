/-
  File:      Lox/Proofs/Grammar.lean
  Subject:   The grammar of the language, and the trees of its derivations.

      program     -> declaration*
      declaration -> "var" IDENTIFIER ( "=" expression )? ";" | statement
      statement   -> "print" expression ";" | expression ";"
      expression  -> assignment
      assignment  -> IDENTIFIER "=" assignment | equality
      equality    -> comparison ( ( "!=" | "==" ) comparison )*
      comparison  -> term ( ( ">" | ">=" | "<" | "<=" ) term )*
      term        -> factor ( ( "-" | "+" ) factor )*
      factor      -> unary ( ( "/" | "*" ) unary )*
      unary       -> ( "!" | "-" ) unary | primary
      primary     -> NUMBER | STRING | "true" | "false" | "nil"
                   | IDENTIFIER | "(" expression ")"

  Nothing here speaks of the parser; of its types only the names of the rules are used.

  * `Derives`, `DerivesStmt`, `DerivesProgram` -- which tokens a rule derives, and with which tree;
  * `Mark`, `Expr.frontier`, `Stmt.frontier` -- the leaves of a tree from left to right;
  * `Derives.covers`, `DerivesProgram.covers` -- the leaves of a derived tree are its tokens.
-/
import Lox.Tree.Expression
import Mathlib.Data.List.Forall2

namespace Lox

open Token (Kind)

/-! ## 1. Expressions -/

/-- The tokens that stand for a value by themselves. -/
inductive Denotes : Token → Value → Prop
  | number {t} (h : t.kind = .number) : Denotes t t.literal
  | string {t} (h : t.kind = .string) : Denotes t t.literal
  | trueWord {t} (h : t.kind = .trueWord) : Denotes t (.bool true)
  | falseWord {t} (h : t.kind = .falseWord) : Denotes t (.bool false)
  | nilWord {t} (h : t.kind = .nilWord) : Denotes t .nil

/-- The rules of the form `operand ( operator operand )*`: the level, its operators and the rule
    of its operands. -/
def chainRules : List (Level × List Kind × Rule) :=
  [(.equality, [.bangEqual, .equalEqual], .binary .comparison),
    (.comparison, [.greater, .greaterEqual, .less, .lessEqual], .binary .term),
    (.term, [.minus, .plus], .binary .factor),
    (.factor, [.slash, .star], .unary)]

/-- One turn of a repetition `( operator operand )*`. -/
structure Link where
  op : Token
  /-- The tokens of the operand. -/
  tokens : List Token
  /-- The tree of the operand. -/
  tree : Expr

/-- The tokens of a link. -/
def Link.all (k : Link) : List Token :=
  k.op :: k.tokens

/-- A chain of links folded to the left, beginning with the tree of its first operand. -/
def foldLinks (first : Expr) (links : List Link) : Expr :=
  links.foldl (fun left k => .binary left k.op k.tree) first

/-- The rule derives the tokens, and the tree is that of the derivation. -/
inductive Derives : Rule → List Token → Expr → Prop
  | assign {name eq ts v} (hn : name.kind = .identifier) (hq : eq.kind = .equal)
      (hv : Derives .assignment ts v) :
      Derives .assignment (name :: eq :: ts) (.assign name v)
  | unassigned {ts e} (he : Derives (.binary .equality) ts e) : Derives .assignment ts e
  | chain {l ops r ts first links} (hl : (l, ops, r) ∈ chainRules) (hf : Derives r ts first)
      (ho : ∀ k ∈ links, k.op.kind ∈ ops) (hk : ∀ k ∈ links, Derives r k.tokens k.tree) :
      Derives (.binary l) (ts ++ links.flatMap Link.all) (foldLinks first links)
  | unary {op ts e} (ho : op.kind = .bang ∨ op.kind = .minus) (he : Derives .unary ts e) :
      Derives .unary (op :: ts) (.unary op e)
  | primary {ts e} (he : Derives .primary ts e) : Derives .unary ts e
  | literal {t v} (hv : Denotes t v) : Derives .primary [t] (.literal v)
  | name {t} (ht : t.kind = .identifier) : Derives .primary [t] (.name t)
  | group {opening ts closing e} (ho : opening.kind = .leftParen)
      (he : Derives .assignment ts e) (hc : closing.kind = .rightParen) :
      Derives .primary (opening :: (ts ++ [closing])) (.grouping e)

/-- A chain without links is its first operand. -/
theorem Derives.lone {l : Level} {ops : List Kind} {r : Rule} {ts : List Token} {e : Expr}
    (hl : (l, ops, r) ∈ chainRules) (h : Derives r ts e) : Derives (.binary l) ts e := by
  have hc : Derives (.binary l) (ts ++ [].flatMap Link.all) (foldLinks e []) :=
    .chain hl h (fun k hk => nomatch hk) (fun k hk => nomatch hk)
  rw [List.flatMap_nil, List.append_nil] at hc
  exact hc

/-! ## 2. Statements and programs -/

/-- The tokens derive a declaration, and the tree is that of the derivation. -/
inductive DerivesStmt : List Token → Stmt → Prop
  | var {word name semi} (hw : word.kind = .varWord) (hn : name.kind = .identifier)
      (hs : semi.kind = .semicolon) :
      DerivesStmt [word, name, semi] (.var name none)
  | varInit {word name eq ts semi e} (hw : word.kind = .varWord) (hn : name.kind = .identifier)
      (hq : eq.kind = .equal) (he : Derives .assignment ts e) (hs : semi.kind = .semicolon) :
      DerivesStmt (word :: name :: eq :: (ts ++ [semi])) (.var name (some e))
  | print {word ts semi e} (hw : word.kind = .printWord) (he : Derives .assignment ts e)
      (hs : semi.kind = .semicolon) :
      DerivesStmt (word :: (ts ++ [semi])) (.print e)
  | expression {ts semi e} (he : Derives .assignment ts e) (hs : semi.kind = .semicolon) :
      DerivesStmt (ts ++ [semi]) (.expression e)

/-- The tokens derive a program, and the trees are those of its declarations. -/
inductive DerivesProgram : List Token → List Stmt → Prop
  | nil : DerivesProgram [] []
  | cons {ts us s ss} (hs : DerivesStmt ts s) (hss : DerivesProgram us ss) :
      DerivesProgram (ts ++ us) (s :: ss)

theorem DerivesProgram.append {ts us : List Token} {ss rs : List Stmt}
    (h : DerivesProgram ts ss) (h' : DerivesProgram us rs) :
    DerivesProgram (ts ++ us) (ss ++ rs) := by
  induction h with
  | nil => exact h'
  | cons hs _ ih =>
      rw [List.append_assoc, List.cons_append]
      exact .cons hs ih

/-! ## 3. Frontiers -/

/-- What a tree keeps of a token: the token itself, the value it denotes, or nothing but its
    kind. -/
inductive Mark where
  | token (t : Token)
  | value (v : Value)
  | kind (k : Kind)

/-- The token is one of which the tree keeps this mark. -/
def Mark.Covers : Mark → Token → Prop
  | .token t, u => u = t
  | .value v, u => Denotes u v
  | .kind k, u => u.kind = k

/-- The leaves of an expression from left to right. -/
def Expr.frontier : Expr → List Mark
  | .literal v => [.value v]
  | .unary op e => .token op :: e.frontier
  | .binary l op r => l.frontier ++ .token op :: r.frontier
  | .grouping e => .kind .leftParen :: (e.frontier ++ [.kind .rightParen])
  | .name t => [.token t]
  | .assign t e => .token t :: .kind .equal :: e.frontier
  | .invalid => []
  | .misplaced => []

/-- The leaves of a statement from left to right. -/
def Stmt.frontier : Stmt → List Mark
  | .expression e => e.frontier ++ [.kind .semicolon]
  | .print e => .kind .printWord :: (e.frontier ++ [.kind .semicolon])
  | .var t none => [.kind .varWord, .token t, .kind .semicolon]
  | .var t (some e) =>
    .kind .varWord :: .token t :: .kind .equal :: (e.frontier ++ [.kind .semicolon])
  | .misplaced => []

/-- The marks are, one by one and in order, those of the tokens. -/
abbrev Covering (marks : List Mark) (ts : List Token) : Prop :=
  List.Forall₂ Mark.Covers marks ts

theorem Covering.append {ms ns : List Mark} {ts us : List Token} (h : Covering ms ts)
    (h' : Covering ns us) : Covering (ms ++ ns) (ts ++ us) :=
  List.rel_append h h'

theorem Covering.snoc {ms : List Mark} {m : Mark} {ts : List Token} {t : Token}
    (h : Covering ms ts) (ht : m.Covers t) : Covering (ms ++ [m]) (ts ++ [t]) :=
  h.append (.cons ht .nil)

/-- Links whose operands are covered are covered, whatever stands to their left. -/
theorem covering_foldLinks {links : List Link}
    (hk : ∀ k ∈ links, Covering k.tree.frontier k.tokens) :
    ∀ {first : Expr} {ts : List Token}, Covering first.frontier ts →
      Covering (foldLinks first links).frontier (ts ++ links.flatMap Link.all) := by
  induction links with
  | nil =>
      intro first ts h
      simpa [foldLinks] using h
  | cons k links ih =>
      intro first ts h
      have hk' : Covering (Expr.binary first k.op k.tree).frontier (ts ++ k.all) :=
        h.append (.cons rfl (hk k List.mem_cons_self))
      have := ih (fun k hm => hk k (List.mem_cons_of_mem _ hm)) hk'
      simpa [foldLinks, List.append_assoc] using this

/-- **The frontier of a derived tree accounts for every token once and in order.** -/
theorem Derives.covers {r : Rule} {ts : List Token} {e : Expr} (h : Derives r ts e) :
    Covering e.frontier ts := by
  induction h with
  | assign hn hq hv ih => exact .cons rfl (.cons hq ih)
  | unassigned he ih => exact ih
  | chain hl hf ho hk ihf ihk => exact covering_foldLinks ihk ihf
  | unary ho he ih => exact .cons rfl ih
  | primary he ih => exact ih
  | literal hv => exact .cons hv .nil
  | name ht => exact .cons rfl .nil
  | group ho he hc ih => exact .cons ho (ih.snoc hc)

theorem DerivesStmt.covers {ts : List Token} {s : Stmt} (h : DerivesStmt ts s) :
    Covering s.frontier ts := by
  cases h with
  | var hw hn hs => exact .cons hw (.cons rfl (.cons hs .nil))
  | varInit hw hn hq he hs => exact .cons hw (.cons rfl (.cons hq (he.covers.snoc hs)))
  | print hw he hs => exact .cons hw (he.covers.snoc hs)
  | expression he hs => exact he.covers.snoc hs

theorem DerivesProgram.covers {ts : List Token} {ss : List Stmt} (h : DerivesProgram ts ss) :
    Covering (ss.flatMap Stmt.frontier) ts := by
  induction h with
  | nil => exact .nil
  | cons hs _ ih => exact hs.covers.append ih

end Lox
