/-
  File:      Lox/Command/Arguments.lean
  Subject:   The arguments of the command.

  Three flags and at most one script, in any order.  A long flag may be shortened as long as one
  flag alone begins that way; the marker `--` makes every later argument a word.

  * `Argument.classify` -- what each argument is;
  * `Invocation.ofArguments` -- what they ask for together.
-/
import Lox.Command.Console
import Lox.Text.Digit
import Lox.Text.Quote

namespace Lox

/-! ## 1. Flags and errors -/

/-- A flag of the command. -/
inductive Flag where
  | help | tokens | trees
  deriving DecidableEq, Repr

/-- The long spellings of the flags, in the order in which usage shows them. -/
def Flag.longNames : List (String × Flag) :=
  [("--help", .help), ("--tokens", .tokens), ("--ast", .trees)]

/-- A flag as error messages name it. -/
def Flag.title : Flag → String
  | .help => "-h/--help"
  | .tokens => "--tokens"
  | .trees => "--ast"

/-- Why arguments make no sense. -/
inductive UsageError where
  /-- A shortened flag fits several. -/
  | ambiguous (argument : String) (fits : List String)
  /-- A flag is given a value and takes none. -/
  | valueIgnored (flag : Flag) (value : String)
  | unrecognized (arguments : List String)
  deriving DecidableEq, Repr

namespace UsageError

/-- The wording of a usage error. -/
def message : UsageError → String
  | .ambiguous argument fits =>
    "ambiguous option: " ++ argument ++ " could match " ++ ", ".intercalate fits
  | .valueIgnored flag value =>
    "argument " ++ flag.title ++ ": ignored explicit argument " ++ Text.quoted value
  | .unrecognized arguments => "unrecognized arguments: " ++ " ".intercalate arguments

end UsageError

/-! ## 2. What an argument is -/

/-- What one argument is. -/
inductive Argument where
  | word (text : String)
  | flag (f : Flag)
  /-- A flag with a value that it does not take. -/
  | valued (f : Flag) (value : String)
  /-- Something that looks like a flag and is none. -/
  | unknown (text : String)
  /-- The mark behind which everything is a word. -/
  | marker
  deriving DecidableEq, Repr

namespace Argument

/-- A text without the line break that may end it. -/
def dropBreak (cs : List Char) : List Char :=
  if cs.getLast? = some '\n' then cs.dropLast else cs

/-- True of `-` with decimal digits behind it, or with a point and decimal digits; a line break may
    follow. -/
def isNegativeNumber (cs : List Char) : Bool :=
  match dropBreak cs with
  | '-' :: number =>
    match number.dropWhile Text.isDecimalDigit with
    | [] => !number.isEmpty
    | '.' :: fraction => !fraction.isEmpty && fraction.all Text.isDecimalDigit
    | _ => false
  | _ => false

/-- The parts of a text around the first equals sign; without one there is no second part. -/
def splitAtEquals (cs : List Char) : List Char × Option (List Char) :=
  match cs.dropWhile (· ≠ '=') with
  | [] => (cs, none)
  | _ :: value => (cs.takeWhile (· ≠ '='), some value)

/-- What stands behind the short flag: the flag may be repeated, and anything else is a value, which
    it does not take. -/
def ofRepeated (cs : List Char) : Argument :=
  match cs.dropWhile (· = 'h') with
  | [] => .flag .help
  | value => .valued .help (String.ofList value)

/-- The short flag with more behind it. One equals sign may stand between the two, but then
    something has to follow it. -/
def ofShort : List Char → Argument
  | ['='] => .valued .help ""
  | '=' :: rest => ofRepeated rest
  | rest => ofRepeated rest

/-- The long flag with or without a value. -/
def ofLong (f : Flag) : Option (List Char) → Argument
  | none => .flag f
  | some value => .valued f (String.ofList value)

/-- An argument that begins like a flag and is none. -/
def ofUnmatched (cs : List Char) : Argument :=
  if isNegativeNumber cs || ' ' ∈ cs then .word (String.ofList cs) else .unknown (String.ofList cs)

/-- What an argument before the marker is. -/
def ofText (text : String) : Except UsageError Argument :=
  match text.toList with
  | ['-', '-'] => .ok .marker
  | '-' :: '-' :: rest =>
    let (begun, value) := splitAtEquals ('-' :: '-' :: rest)
    match Flag.longNames.lookup (String.ofList begun) with
    | some f => .ok (ofLong f value)
    | none =>
      match Flag.longNames.filter fun (n, _) => begun.isPrefixOf n.toList with
      | [] => .ok (ofUnmatched ('-' :: '-' :: rest))
      | [(_, f)] => .ok (ofLong f value)
      | fits => .error (.ambiguous text (fits.map (·.1)))
  | '-' :: 'h' :: rest => .ok (ofShort rest)
  | ['-'] => .ok (.word text)
  | '-' :: rest => .ok (ofUnmatched ('-' :: rest))
  | _ => .ok (.word text)

/-- What each argument is. -/
def classify : List String → Except UsageError (List Argument)
  | [] => .ok []
  | text :: rest => do
    match ← ofText text with
    | .marker => return .marker :: rest.map .word
    | a => return a :: (← classify rest)

end Argument

/-! ## 3. What the arguments ask for -/

/-- What a command is asked to do. -/
inductive Invocation where
  | help
  /-- Run a script, or the interactive mode if there is none. -/
  | run (script : Option String) (o : Options)
  deriving DecidableEq, Repr

namespace Invocation

/-- What has been gathered from the arguments so far. -/
structure Gathered where
  script : Option String := none
  o : Options := {}
  /-- The arguments that nothing asked for. -/
  extra : List String := []
  /-- The script was the argument just before. -/
  fresh : Bool := false
  deriving DecidableEq, Repr

/-- The arguments gathered one after the other. The first word is the script. The marker counts as
    an extra argument only if a script stands before it, but not just before it. -/
def gather (g : Gathered) : List Argument → Except UsageError Invocation
  | [] => if g.extra.isEmpty then .ok (.run g.script g.o) else .error (.unrecognized g.extra)
  | .word text :: rest =>
    match g.script with
    | none => gather { g with script := some text, fresh := true } rest
    | some _ => gather { g with extra := g.extra ++ [text], fresh := false } rest
  | .unknown text :: rest => gather { g with extra := g.extra ++ [text], fresh := false } rest
  | .marker :: rest =>
    if g.script.isNone || g.fresh then gather { g with fresh := false } rest
    else gather { g with extra := g.extra ++ ["--"] } rest
  | .flag .help :: _ => .ok .help
  | .flag .tokens :: rest => gather { g with o := { g.o with tokens := true }, fresh := false } rest
  | .flag .trees :: rest => gather { g with o := { g.o with trees := true }, fresh := false } rest
  | .valued f value :: _ => .error (.valueIgnored f value)

/-- What the arguments ask for. -/
def ofArguments (arguments : List String) : Except UsageError Invocation := do
  gather {} (← Argument.classify arguments)

end Invocation

end Lox
