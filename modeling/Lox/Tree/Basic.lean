/-
  File:      Lox/Tree/Basic.lean
  Subject:   Expressions and statements, and how they are shown.

  Trees are built by the parser and by hand.  The parser leaves `invalid` where it dropped an
  operand; a tree built by hand may hold something MISPLACED, a statement inside an expression
  or an expression in a list of statements.  What a misplaced node holds plays no part anywhere,
  so it carries nothing.

  * `Expr`, `Stmt` -- the trees;
  * `Expr.render`, `Stmt.render` -- their fully parenthesised form, operator first.
-/
import Lox.Diagnostic

namespace Lox

/-! ## 1. Trees -/

/-- An expression. -/
inductive Expr where
  | literal (value : Value)
  | unary (op : Token) (operand : Expr)
  | binary (left : Expr) (op : Token) (right : Expr)
  | grouping (inner : Expr)
  | name (token : Token)
  | assign (target : Token) (value : Expr)
  /-- An operand that was dropped after a syntax error. -/
  | invalid
  /-- Something that is no expression. -/
  | misplaced
  deriving DecidableEq, Repr, Inhabited

/-- A statement. -/
inductive Stmt where
  | expression (e : Expr)
  | print (e : Expr)
  | var (target : Token) (initial : Option Expr)
  /-- Something that is no statement. -/
  | misplaced
  deriving DecidableEq, Repr, Inhabited

/-- True of expression statements. -/
def Stmt.isExpression : Stmt → Bool
  | .expression _ => true
  | _ => false

/-! ## 2. Rendering -/

/-- A head and its parts in parentheses. -/
def parenthesised (head : String) (parts : List String) : String :=
  "(" ++ head ++ String.join (parts.map (" " ++ ·)) ++ ")"

/-- An expression, operator first and fully parenthesised. -/
def Expr.render : Expr → Except Fault String
  | .literal v => .ok v.text
  | .unary op e => do return parenthesised op.lexeme [← e.render]
  | .binary l op r => do return parenthesised op.lexeme [← l.render, ← r.render]
  | .grouping e => do return parenthesised "group" [← e.render]
  | .name t => .ok t.lexeme
  | .assign t e => do return parenthesised ("= " ++ t.lexeme) [← e.render]
  | .invalid => .ok "<invalid>"
  | .misplaced => .error .notExpression

/-- A statement, its keyword first and fully parenthesised. -/
def Stmt.render : Stmt → Except Fault String
  | .expression e => do return parenthesised ";" [← e.render]
  | .print e => do return parenthesised "print" [← e.render]
  | .var t none => .ok (parenthesised ("var " ++ t.lexeme) [])
  | .var t (some e) => do return parenthesised ("var " ++ t.lexeme) [← e.render]
  | .misplaced => .error .notStatement

end Lox
