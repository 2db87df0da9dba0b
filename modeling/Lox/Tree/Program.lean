/-
  File:      Lox/Tree/Program.lean
  Subject:   A whole source read under a reporter.

  A reporter that remembers an error, an old one or one of the scanner's included, lets no
  statement through.

  * `Reporter.parse` -- tokens read to the end;
  * `Reporter.read` -- a source text scanned and parsed.
-/
import Lox.Token.Scan
import Lox.Tree.Statement

namespace Lox

/-- What reading tokens to the end found. -/
structure Program where
  /-- The statements; none at all if the reporter remembers an error. -/
  statements : List Stmt
  /-- What was reported, in order. -/
  diagnostics : List Diagnostic
  /-- The reporter afterwards. -/
  reporter : Reporter
  /-- How many tokens were read. -/
  used : Nat
  deriving DecidableEq, Repr

/-- The tokens `ts`, with the end marker `stop` behind them, read to the end. -/
def Reporter.parse (r : Reporter) (stop : Token) (ts : List Token) : Program :=
  let ds := declarations stop ts
  let diagnostics := (ds.flatMap (·.reports)).map Diagnostic.syntactic
  let reporter := r.reportAll diagnostics
  { statements := if reporter.hadError then [] else ds.filterMap (·.tree)
    diagnostics
    reporter
    used := ds.foldr (fun d n => d.used + n) 0 }

/-- A source text with what scanning and parsing it found. -/
structure Reading where
  stream : Token.Stream
  program : Program
  /-- The lexical errors, and the syntax errors behind them. -/
  diagnostics : List Diagnostic
  deriving DecidableEq, Repr

/-- A source text scanned and parsed. -/
def Reporter.read (r : Reporter) (source : String) : Reading :=
  let found := scan source
  let lexical := found.errors.map Diagnostic.lexical
  let program := (r.reportAll lexical).parse found.stream.stop found.stream.tokens
  { stream := found.stream, program, diagnostics := lexical ++ program.diagnostics }

end Lox
