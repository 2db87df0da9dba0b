/-
  File:      Lox/Tree/Cursor.lean
  Subject:   A position in a token stream, moved by single calls.

  Every rule of the grammar can be called at the position of a cursor.  A call moves the position
  by the tokens it used, whether it succeeds or fails, and tells the reporter what it found.

  * `Cursor` -- the stream, the position and the reporter;
  * `Cursor.Call`, `Cursor.Answer` -- what can be asked, and what comes back;
  * `Cursor.perform` -- one call.
-/
import Lox.Tree.Program

namespace Lox

open Token (Kind)

/-- A position in a token stream, with the reporter that hears of errors. -/
structure Cursor where
  stream : Token.Stream
  position : Nat := 0
  reporter : Reporter := {}
  deriving DecidableEq, Repr

namespace Cursor

/-! ## 1. Looking -/

/-- The tokens from the position on, without the end marker. -/
def rest (c : Cursor) : List Token :=
  c.stream.tokens.drop c.position

/-- True when only the end marker is left. -/
def atEnd (c : Cursor) : Bool :=
  c.rest.isEmpty

/-- The token at the position. -/
def peek (c : Cursor) : Token :=
  c.rest.headD c.stream.stop

/-- The token before the position. Before the first token stands the end marker. -/
def previous (c : Cursor) : Token :=
  match c.position with
  | 0 => c.stream.stop
  | n + 1 => c.stream.tokens[n]?.getD c.stream.stop

/-- True when the token at the position is of one of the kinds. The end marker is of none. -/
def check (c : Cursor) (kinds : List Kind) : Bool :=
  match c.rest with
  | [] => false
  | t :: _ => t.kind ∈ kinds

/-! ## 2. Calls -/

/-- What can be asked of a cursor. -/
inductive Call where
  | peek
  | previous
  | atEnd
  | advance
  | check (kinds : List Kind)
  /-- Advance if the token at the position is of one of the kinds. -/
  | accept (kinds : List Kind)
  /-- Advance over a token of the kind, or fail with the message. -/
  | consume (kind : Kind) (message : String)
  /-- Report the token at the position. -/
  | complain (message : String) (stray : Bool)
  /-- Report any token. -/
  | blame (token : Token) (message : String) (stray : Bool)
  | synchronize
  | rule (r : Rule)
  | expressionStatement
  | printStatement
  | statement
  | varDeclaration
  | declaration
  | program
  deriving DecidableEq, Repr

/-- What a call answers. -/
inductive Answer where
  | nothing
  | truth (b : Bool)
  | token (t : Token)
  | expression (e : Expr)
  | statement (s : Stmt)
  | statements (ss : List Stmt)
  | error (e : SyntaxError)
  deriving DecidableEq, Repr

/-- What a call did. -/
structure Performed where
  cursor : Cursor
  answer : Answer
  diagnostics : List Diagnostic := []
  deriving DecidableEq, Repr

/-- The cursor moved over `used` tokens, with `reports` told to its reporter. -/
def move (c : Cursor) (used : Nat) (reports : List SyntaxError) (answer : Answer) : Performed :=
  let diagnostics := reports.map Diagnostic.syntactic
  { cursor := { c with
      position := c.position + used, reporter := c.reporter.reportAll diagnostics }
    answer
    diagnostics }

/-- The cursor moved by a step; `answer` makes an answer of what the step made. -/
def take (c : Cursor) (s : Step α) (answer : α → Answer) : Performed :=
  c.move s.used s.reports <|
    match s.result with
    | .ok a => answer a
    | .error e => .error e

/-- The cursor moved over the token at the position; at the end it stays. -/
def advance (c : Cursor) : Cursor :=
  if c.atEnd then c else { c with position := c.position + 1 }

/-- One call. -/
def perform (c : Cursor) : Call → Performed
  | .peek => { cursor := c, answer := .token c.peek }
  | .previous => { cursor := c, answer := .token c.previous }
  | .atEnd => { cursor := c, answer := .truth c.atEnd }
  | .advance => { cursor := c.advance, answer := .token c.advance.previous }
  | .check kinds => { cursor := c, answer := .truth (c.check kinds) }
  | .accept kinds =>
    { cursor := if c.check kinds then c.advance else c, answer := .truth (c.check kinds) }
  | .consume kind message =>
    c.take (expect c.stream.stop kind (.stated message false) c.rest) .token
  | .complain message stray =>
    let e : SyntaxError := ⟨c.peek, .stated message stray⟩
    c.move 0 [e] (.error e)
  | .blame token message stray =>
    let e : SyntaxError := ⟨token, .stated message stray⟩
    c.move 0 [e] (.error e)
  | .synchronize => c.move (skip c.rest) [] .nothing
  | .rule r => c.take (r.parse c.stream.stop c.rest) .expression
  | .expressionStatement => c.take (Lox.expressionStatement c.stream.stop c.rest) .statement
  | .printStatement => c.take (Lox.printStatement c.stream.stop c.rest) .statement
  | .statement => c.take (Lox.statement c.stream.stop c.rest) .statement
  | .varDeclaration => c.take (Lox.varDeclaration c.stream.stop c.rest) .statement
  | .declaration =>
    let d := Lox.declaration c.stream.stop c.rest
    c.move d.used d.reports ((d.tree.map Answer.statement).getD .nothing)
  | .program =>
    let p := c.reporter.parse c.stream.stop c.rest
    { cursor := { c with position := c.position + p.used, reporter := p.reporter }
      answer := .statements p.statements
      diagnostics := p.diagnostics }

/-- Several calls, one after the other, each with what it did. -/
def performAll (c : Cursor) : List Call → List Performed
  | [] => []
  | call :: calls =>
    let p := c.perform call
    p :: performAll p.cursor calls

/-- One declaration after the other, up to the end. -/
def declareAll (c : Cursor) : List Performed :=
  c.performAll ((declarations c.stream.stop c.rest).map fun _ => .declaration)

/-- The cursor before the first token of a scanned source; its reporter knows of the lexical
    errors. -/
def ofScan (s : Scan) : Cursor :=
  { stream := s.stream, reporter := Reporter.reportAll {} (s.errors.map .lexical) }

end Cursor

end Lox
