/-
  File:      Lox/Main.lean
  Subject:   The command on a real terminal.

  Only input and output stand here: arguments and files come in, texts go out, and in interactive
  mode a line is asked for when it is needed.
-/
import Lox.Command.Basic

namespace Lox

/-- The two channels of the process. -/
def Console.flush (c : Console) : IO Unit := do
  let out ← IO.getStdout
  out.putStr c.outText
  out.flush
  IO.eprint c.errText

/-- The code by which the system says that a path leads to a directory; it comes with either
    sign. -/
def directoryCode : UInt32 := 21

/-- Why the system could not read a file. -/
def ReadError.ofSystem : IO.Error → ReadError
  | .noFileOrDirectory .. | .noSuchThing .. => .noSuchFile
  | .inappropriateType _ code _ =>
    if code = directoryCode ∨ code = -directoryCode then .isDirectory else .notDirectory
  | .invalidArgument _ _ "name too long" => .nameTooLong
  | .permissionDenied .. => .stated "Permission denied"
  | e => .stated (toString e)

/-- The bytes of a file of the system. -/
def readSystemFile (name : String) : IO (Except ReadError ByteArray) := do
  try
    return .ok (← IO.FS.readBinFile name)
  catch e =>
    return .error (.ofSystem e)

/-- The exit code of the process; an ending without a code of its own is told apart by one. -/
def Ending.code : Ending → IO UInt32
  | .exit code => return code.toUInt32
  | .fault f => do IO.eprintln f.message; return 1
  | .undecodable => do IO.eprintln "The script is not a text."; return 1
  | .unnameable => do IO.eprintln "No file can have such a name."; return 1

/-- Lines typed at once, answered in order; the session afterwards, or how it ended. -/
def answerLines (o : Options) (s : Session) : List String → IO (Except Ending Session)
  | [] => return .ok s
  | line :: rest =>
    match Repl.respond o s line with
    | .farewell => return .error (.exit Exit.ok)
    | .silence => answerLines o s rest
    | .turn t => do
      Console.flush (.ofTranscript t.written)
      match t.fault with
      | some f => return .error (.fault f)
      | none => answerLines o t.session rest

/-- The interactive mode, line by line as they are typed. -/
partial def converse (o : Options) (s : Session) : IO UInt32 := do
  Console.flush (.print Repl.prompt)
  let typed ← (← IO.getStdin).getLine
  if typed.isEmpty then
    Console.flush (.print Repl.Close.endOfInput.text)
    Ending.code (.exit Exit.ok)
  else
    match ← answerLines o s (Text.lines (Text.withNewlines typed)) with
    | .ok s => converse o s
    | .error e => e.code

end Lox

open Lox in
/-- The command. -/
def main (arguments : List String) : IO UInt32 := do
  let verbose := ((← IO.getEnv "LOXDEBUG").getD "") != ""
  match Invocation.ofArguments arguments with
  | .ok (.run none o) =>
    Console.flush (.print Repl.banner)
    converse (if verbose then { o with tokens := true, trees := true } else o) {}
  | invocation =>
    let content ← match invocation with
      | .ok (.run (some name) _) => readSystemFile name
      | _ => pure (.error .noSuchFile)
    let f := command { file := fun _ => content, verbose } arguments
    f.console.flush
    f.ending.code
