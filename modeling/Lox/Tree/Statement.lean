/-
  File:      Lox/Tree/Statement.lean
  Subject:   The rules of the grammar that read statements, and recovery between them.

  A declaration that fails is dropped together with the tokens up to the next place where a
  statement may begin, so that reading goes on there.

  * `declaration` -- one statement, or none after an error;
  * `skip` -- how many tokens are dropped after an error;
  * `declarations` -- a whole list of tokens read statement by statement.
-/
import Lox.Tree.Expression

namespace Lox

open Token (Kind)

/-! ## 1. Statements -/

/-- An expression and the semicolon behind it, made into a statement. -/
def terminated (stop : Token) (cause : SyntaxError.Cause) (make : Expr → Stmt)
    (ts : List Token) : Step Stmt :=
  (Rule.parse stop .assignment ts).andThen ts fun e rest =>
    (expect stop .semicolon cause rest).map fun _ => make e

/-- The statement that is an expression. -/
def expressionStatement (stop : Token) (ts : List Token) : Step Stmt :=
  terminated stop .expressionUnended .expression ts

/-- What stands behind the word `print`. -/
def printStatement (stop : Token) (ts : List Token) : Step Stmt :=
  terminated stop .printUnended .print ts

/-- Any statement but a declaration. -/
def statement (stop : Token) : List Token → Step Stmt
  | [] => expressionStatement stop []
  | t :: rest =>
    if t.kind = .printWord then (printStatement stop rest).behind 1
    else expressionStatement stop (t :: rest)

/-- What stands behind the name in a declaration: an initial value or none, and a semicolon. -/
def initializer (stop : Token) (target : Token) : List Token → Step Stmt
  | [] => .fail ⟨stop, .declarationUnended⟩
  | t :: rest =>
    if t.kind = .equal then
      (terminated stop .declarationUnended (fun e => .var target (some e)) rest).behind 1
    else
      (expect stop .semicolon .declarationUnended (t :: rest)).map fun _ => .var target none

/-- What stands behind the word `var`. -/
def varDeclaration (stop : Token) (ts : List Token) : Step Stmt :=
  (expect stop .identifier .nameExpected ts).andThen ts (initializer stop)

/-- Any statement, a declaration included. -/
def anyStatement (stop : Token) : List Token → Step Stmt
  | [] => statement stop []
  | t :: rest =>
    if t.kind = .varWord then (varDeclaration stop rest).behind 1
    else statement stop (t :: rest)

/-! ## 2. Recovery -/

/-- The words that begin a statement. -/
def statementWords : List Kind :=
  [.classWord, .funWord, .varWord, .forWord, .ifWord, .whileWord, .printWord, .returnWord]

/-- How many of `ts` are dropped behind the token `last`: none right behind a semicolon, at a word
    that begins a statement or at the end. -/
def skipBehind (last : Token) : List Token → Nat
  | [] => 0
  | t :: rest =>
    if last.kind = .semicolon ∨ t.kind ∈ statementWords then 0 else skipBehind t rest + 1

/-- How many of `ts` are dropped after an error: the first, and then up to the next place where
    a statement may begin. -/
def skip : List Token → Nat
  | [] => 0
  | t :: rest => skipBehind t rest + 1

/-! ## 3. Declarations -/

/-- What reading one declaration did. The tree is missing after a failure. -/
structure Declaration where
  used : Nat
  reports : List SyntaxError
  tree : Option Stmt
  deriving DecidableEq, Repr

/-- One declaration, read from the front of `ts`. -/
def declaration (stop : Token) (ts : List Token) : Declaration :=
  let s := anyStatement stop ts
  match s.result with
  | .ok stmt => ⟨s.used, s.reports, some stmt⟩
  | .error _ => ⟨s.used + skip (ts.drop s.used), s.reports, none⟩

/-- All of `ts`, read declaration by declaration. -/
def declarations (stop : Token) : List Token → List Declaration
  | [] => []
  | t :: rest =>
    let d := declaration stop (t :: rest)
    d :: declarations stop (rest.drop (d.used - 1))
termination_by ts => ts.length
decreasing_by simp only [List.length_drop, List.length_cons]; omega

end Lox
