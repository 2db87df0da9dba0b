/-
  File:      Lox/Command/Console.lean
  Subject:   What a command writes and how it ends.
-/
import Lox.Session

namespace Lox

/-- What was written to the two channels of a command, in order. -/
structure Console where
  out : List String := []
  err : List String := []
  deriving DecidableEq, Repr, Inhabited

namespace Console

/-- The text of the output channel. -/
def outText (c : Console) : String :=
  String.join c.out

/-- The text of the error channel. -/
def errText (c : Console) : String :=
  String.join c.err

/-- One console behind the other. -/
def append (a b : Console) : Console :=
  ⟨a.out ++ b.out, a.err ++ b.err⟩

instance : Append Console := ⟨append⟩

/-- A text on the output channel. -/
def print (text : String) : Console :=
  { out := [text] }

/-- A text on the error channel. -/
def complain (text : String) : Console :=
  { err := [text] }

/-- What a turn wrote. -/
def ofTranscript (t : Transcript) : Console :=
  { out := [t.printed], err := [Diagnostic.texts t.diagnostics] }

end Console

/-- How a command ends: with an exit code, or by a failure that has none. -/
inductive Ending where
  | exit (code : Nat)
  /-- A tree could not be handled. -/
  | fault (f : Fault)
  /-- The script is not a text. -/
  | undecodable
  /-- The script has a name that no file can have. -/
  | unnameable
  deriving DecidableEq, Repr

/-- What a command wrote and how it ended. -/
structure Finished where
  console : Console
  ending : Ending
  deriving DecidableEq, Repr

namespace Exit

/-- All went well. -/
def ok : Nat := 0

/-- The arguments make no sense. -/
def usage : Nat := 64

/-- The source has a lexical or syntax error. -/
def dataError : Nat := 65

/-- The script cannot be read. -/
def noInput : Nat := 66

/-- The program ended in a runtime error. -/
def software : Nat := 70

/-- The exit code that a reporter asks for. -/
def ofReporter (r : Reporter) : Nat :=
  if r.hadError then dataError else if r.hadRuntimeError then software else ok

end Exit

end Lox
