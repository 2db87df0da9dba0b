/-
  File:      Lox/Session.lean
  Subject:   Sources run one after the other.

  A session keeps the variables and the reporter between two sources.  Running a source scans it,
  parses it and, unless the reporter remembers an error, executes it.

  * `Session`, `Transcript`, `Turn` -- what is kept, what is written, what one action does;
  * `Session.run` -- one source from text to effects, with listings on demand;
  * `Session.Action`, `Session.act` -- everything that can be done to a session.
-/
import Lox.Eval
import Lox.Tree.Program

namespace Lox

/-! ## 1. What is kept and what is written -/

/-- What lasts from one source to the next. -/
structure Session where
  env : Env := {}
  reporter : Reporter := {}
  deriving DecidableEq, Repr, Inhabited

/-- What was written, in order: the lines of listings, the lines that programs print, and the
    diagnostics. -/
structure Transcript where
  listings : List String := []
  output : List String := []
  diagnostics : List Diagnostic := []
  deriving DecidableEq, Repr, Inhabited

/-- A text of lines, each with its end. -/
def unlines (lines : List String) : String :=
  String.join (lines.map (· ++ "\n"))

/-- The text of diagnostics. -/
def Diagnostic.texts (ds : List Diagnostic) : String :=
  String.join (ds.map Diagnostic.text)

/-- The listings and, behind them, what programs printed. -/
def Transcript.printed (t : Transcript) : String :=
  unlines t.listings ++ unlines t.output

/-- What an action answers. -/
inductive Reply where
  | nothing
  | truth (b : Bool)
  | value (v : Value)
  | error (e : RuntimeError)
  deriving DecidableEq, Repr

/-- What one action did. -/
structure Turn where
  session : Session
  written : Transcript := {}
  reply : Reply := .nothing
  /-- The tree that could not be handled, if there was one. -/
  fault : Option Fault := none
  deriving DecidableEq, Repr

/-! ## 2. Running a source -/

/-- What is shown besides the effects of a source. -/
structure Options where
  /-- Print the value of a lone expression statement. -/
  echo : Bool := false
  /-- List the tokens. -/
  tokens : Bool := false
  /-- List the trees. -/
  trees : Bool := false
  deriving DecidableEq, Repr, Inhabited

/-- A listing: a title between blank lines, the entries, and a line with a blank. -/
def listing (title : String) (entries : List String) : List String :=
  ["", title ++ ":", ""] ++ entries ++ [" "]

/-- Statements executed, and a runtime error reported. -/
def Session.execute (s : Session) (echo : Bool) (statements : List Stmt) : Turn :=
  let x := execAll echo s.env statements
  let s := { s with env := x.env }
  match x.failure with
  | none => { session := s, written := { output := x.output } }
  | some (.runtime e) =>
    { session := { s with reporter := s.reporter.report (.runtime e) }
      written := { output := x.output, diagnostics := [.runtime e] } }
  | some (.fault f) => { session := s, written := { output := x.output }, fault := some f }

/-- The turn with listings and diagnostics written before it. -/
def Turn.behind (listings : List String) (diagnostics : List Diagnostic) (t : Turn) : Turn :=
  { t with written := { t.written with
      listings := listings ++ t.written.listings
      diagnostics := diagnostics ++ t.written.diagnostics } }

/-- The trees of a source listed, and the source executed. -/
def Session.present (s : Session) (o : Options) (statements : List Stmt) : Turn :=
  let echo := o.echo && match statements with
    | [s] => s.isExpression
    | _ => false
  if o.trees then
    match statements.mapM Stmt.render with
    | .ok shown => (s.execute echo statements).behind (listing "AST" shown) []
    | .error f => { session := s, fault := some f }
  else s.execute echo statements

/-- A source run from text to effects. -/
def Session.run (s : Session) (o : Options) (source : String) : Turn :=
  let reading := s.reporter.read source
  let s := { s with reporter := reading.program.reporter }
  let tokens := if o.tokens then listing "Tokens" (reading.stream.all.map Token.listing) else []
  let t := if s.reporter.hadError then { session := s } else
    s.present o reading.program.statements
  t.behind tokens reading.diagnostics

/-- A source read, and what it holds executed without listings. Under a reporter that remembers
    an error it holds nothing. -/
def Session.interpret (s : Session) (echo : Bool) (source : String) : Turn :=
  let reading := s.reporter.read source
  let s := { s with reporter := reading.program.reporter }
  (s.execute echo reading.program.statements).behind [] reading.diagnostics

/-! ## 3. Actions -/

/-- What can be done to a session. -/
inductive Session.Action where
  | run (source : String) (o : Options)
  | interpret (source : String) (echo : Bool)
  | reset
  /-- Go on with the same reporter, and with the same variables or none. -/
  | renew (keepEnv : Bool)
  | define (name : String) (v : Value)
  | get (name : Token)
  | contains (name : String)
  | report (d : Diagnostic)
  deriving DecidableEq, Repr

/-- One action. -/
def Session.act (s : Session) : Session.Action → Turn
  | .run source o => s.run o source
  | .interpret source echo => s.interpret echo source
  | .reset => { session := { s with reporter := s.reporter.reset } }
  | .renew keepEnv => { session := if keepEnv then s else { s with env := {} } }
  | .define name v => { session := { s with env := s.env.define name v } }
  | .get name =>
    { session := s
      reply := match s.env.get? name.lexeme with
        | some v => .value v
        | none => .error ⟨name, .undefinedVariable⟩ }
  | .contains name => { session := s, reply := .truth (s.env.contains name) }
  | .report d =>
    { session := { s with reporter := s.reporter.report d }, written := { diagnostics := [d] } }

/-- Several actions, one after the other, each with what it did. -/
def Session.actAll (s : Session) : List Session.Action → List Turn
  | [] => []
  | a :: rest =>
    let t := s.act a
    t :: t.session.actAll rest

end Lox
