/-
  File:      Lox/Command/Repl.lean
  Subject:   The interactive mode.

  Each line is a source of its own: variables last, errors do not.  A line that says `exit` or
  `quit` leaves, a blank line does nothing.
-/
import Lox.Command.Console
import Lox.Text.Blank

namespace Lox.Repl

/-- What greets the user. -/
def banner : String :=
  "Lox Language Interpreter - REPL\nType `exit` or `quit` to leave.\n"

/-- What stands before each line. -/
def prompt : String := "> "

/-- The words that leave. -/
def farewells : List String := ["exit", "quit"]

/-- Why no further line comes. -/
inductive Close where
  | endOfInput
  | interrupt
  deriving DecidableEq, Repr

/-- What is written when no further line comes. -/
def Close.text : Close → String
  | .endOfInput => "\n"
  | .interrupt => "\nInterrupted.\n"

/-- How a line is answered. -/
inductive Response where
  /-- The line leaves. -/
  | farewell
  /-- The line is blank. -/
  | silence
  | turn (t : Turn)
  deriving DecidableEq, Repr

/-- One line, run in a session whose reporter is cleared first. -/
def respond (o : Options) (s : Session) (line : String) : Response :=
  let word := Text.strip line
  if word ∈ farewells then .farewell
  else if word = "" then .silence
  else .turn ({ s with reporter := s.reporter.reset }.run { o with echo := true } line)

/-- What answering lines did: what was written, the session afterwards, and how it ended. -/
structure Dialogue where
  console : Console
  session : Session
  ending : Ending := .exit Exit.ok
  deriving DecidableEq, Repr

/-- The dialogue with something written before it. -/
def Dialogue.behind (c : Console) (d : Dialogue) : Dialogue :=
  { d with console := c ++ d.console }

/-- Lines answered one after the other. -/
def answer (o : Options) (close : Close) (s : Session) : List String → Dialogue
  | [] => { console := .print prompt ++ .print close.text, session := s }
  | line :: rest =>
    match respond o s line with
    | .farewell => { console := .print prompt, session := s }
    | .silence => (answer o close s rest).behind (.print prompt)
    | .turn t =>
      let shown := Console.print prompt ++ .ofTranscript t.written
      match t.fault with
      | some f => { console := shown, session := t.session, ending := .fault f }
      | none => (answer o close t.session rest).behind shown

/-- The interactive mode from its greeting on. -/
def run (o : Options) (close : Close) (lines : List String) : Finished :=
  let d := (answer o close {} lines).behind (.print banner)
  ⟨d.console, d.ending⟩

end Lox.Repl
