/-
  File:      Lox/Command/Basic.lean
  Subject:   The command: arguments, files and lines in, texts and an exit code out.

  Everything the command asks of the outside is in a `World`, so that the command itself is a
  function.

  * `runScript` -- a script file;
  * `command` -- the whole command.
-/
import Lox.Command.Arguments
import Lox.Command.Folder
import Lox.Command.Repl
import Lox.Text.Lines

namespace Lox

/-! ## 1. The outside -/

/-- What the command asks of the outside. -/
structure World where
  /-- The bytes of a file. -/
  file : String → Except ReadError ByteArray
  /-- What is typed in interactive mode. -/
  input : String := ""
  /-- Why no further line comes. -/
  close : Repl.Close := .endOfInput
  /-- All listings are asked for, whatever the arguments say. -/
  verbose : Bool := false

/-! ## 2. The command -/

/-- The line that shows how the command is used. -/
def usageLine : String :=
  "usage: lox [-h] [--tokens] [--ast] [script]\n"

/-- What the help flag shows. -/
def helpText : String :=
  usageLine ++ "\nLox Language Interpreter. Run with no script to enter the REPL.\n"
    ++ "\npositional arguments:\n"
    ++ "  script      Path to a Lox source file to execute.\n"
    ++ "\noptions:\n"
    ++ "  -h, --help  show this help message and exit\n"
    ++ "  --tokens    Print the scanned tokens before parsing.\n"
    ++ "  --ast       Print the parsed AST before evaluation.\n"

/-- The text of a script run in a fresh session; the exit code tells how it went. -/
def runText (o : Options) (text : String) : Finished :=
  let t := Session.run {} o text
  ⟨.ofTranscript t.written,
    match t.fault with
    | some f => .fault f
    | none => .exit (Exit.ofReporter t.session.reporter)⟩

/-- A script file run. -/
def runScript (w : World) (o : Options) (name : String) : Finished :=
  if '\x00' ∈ name.toList then ⟨{}, .unnameable⟩
  else
    match w.file name with
    | .error e =>
      ⟨.complain ("Could not read " ++ name ++ ": " ++ e.message ++ "\n"), .exit Exit.noInput⟩
    | .ok bytes =>
      match Text.decode? bytes with
      | none => ⟨{}, .undecodable⟩
      | some text => runText o text

/-- The command on its arguments. -/
def command (w : World) (arguments : List String) : Finished :=
  match Invocation.ofArguments arguments with
  | .error e =>
    ⟨.complain (usageLine ++ "lox: error: " ++ e.message ++ "\n"), .exit Exit.usage⟩
  | .ok .help => ⟨.print helpText, .exit Exit.ok⟩
  | .ok (.run script o) =>
    let o := if w.verbose then { o with tokens := true, trees := true } else o
    match script with
    | none => Repl.run o w.close (Text.lines (Text.withNewlines w.input))
    | some name => runScript w o name

end Lox
