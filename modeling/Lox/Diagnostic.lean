/-
  File:      Lox/Diagnostic.lean
  Subject:   What can be wrong with a source, and how it is said.

  Each error names its CAUSE; the wording stands in one function per sort of error.

  * `LexicalError`, `SyntaxError`, `RuntimeError` -- the errors of a source, found by the
    scanner, the parser and the evaluator;
  * `Fault` -- a tree that no source has: it can neither be evaluated nor shown;
  * `Diagnostic` -- an error as a user reads it;
  * `Reporter` -- the memory of what has been reported.
-/
import Lox.Token.Basic

namespace Lox

/-! ## 1. Lexical errors -/

/-- Why a stretch of source is no word. -/
inductive LexicalError.Cause where
  | unexpectedCharacter (c : Char)
  | unterminatedString
  | malformedNumber
  /-- A cause given in words. -/
  | stated (message : String)
  deriving DecidableEq, Repr

/-- An error of the scanner, on a line. -/
structure LexicalError where
  line : Int
  cause : LexicalError.Cause
  deriving DecidableEq, Repr

/-- The wording of a lexical error. -/
def LexicalError.Cause.message : LexicalError.Cause → String
  | .unexpectedCharacter c => "Unexpected character: " ++ String.singleton c
  | .unterminatedString => "Unterminated string."
  | .malformedNumber => "Unexpected invalid number."
  | .stated m => m

/-! ## 2. Syntax errors -/

/-- Why a token cannot stand where it stands. -/
inductive SyntaxError.Cause where
  | expressionExpected
  /-- A binary operator stands where its left operand should begin. -/
  | strayOperator
  | groupUnclosed
  | nameExpected
  | declarationUnended
  | printUnended
  | expressionUnended
  | targetInvalid
  /-- A cause given in words, of the stray-operator sort or not. -/
  | stated (message : String) (stray : Bool)
  deriving DecidableEq, Repr

namespace SyntaxError.Cause

/-- The wording of a syntax error. -/
def message : SyntaxError.Cause → String
  | .expressionExpected => "Expect expression."
  | .strayOperator => "Binary operator without left-hand operand."
  | .groupUnclosed => "Expect ')' after expression."
  | .nameExpected => "Expect variable name."
  | .declarationUnended => "Expect ';' after variable declaration."
  | .printUnended => "Expect ';' after value."
  | .expressionUnended => "Expect ';' after expression."
  | .targetInvalid => "Invalid assignment target."
  | .stated m _ => m

/-- True of the errors that an operand recovers from. -/
def isStray : SyntaxError.Cause → Bool
  | .strayOperator => true
  | .stated _ stray => stray
  | _ => false

end SyntaxError.Cause

/-- An error of the parser, at a token. -/
structure SyntaxError where
  token : Token
  cause : SyntaxError.Cause
  deriving DecidableEq, Repr

/-! ## 3. Runtime errors and faults -/

/-- Why an evaluation cannot go on. -/
inductive RuntimeError.Cause where
  | undefinedVariable
  | operandNotNumber
  | operandsNotNumbers
  | operandsNotAddable
  | divisionByZero
  /-- A cause given in words. -/
  | stated (message : String)
  deriving DecidableEq, Repr

/-- An error of the evaluator, at the operator or name it arose from. -/
structure RuntimeError where
  token : Token
  cause : RuntimeError.Cause
  deriving DecidableEq, Repr

/-- The wording of a runtime error. -/
def RuntimeError.message (e : RuntimeError) : String :=
  match e.cause with
  | .undefinedVariable => "Undefined variable '" ++ e.token.lexeme ++ "'."
  | .operandNotNumber => "Operand must be a number."
  | .operandsNotNumbers => "Operands must be numbers."
  | .operandsNotAddable => "Operands must be two numbers, two strings, or convertible to string."
  | .divisionByZero => "Attempted to divide by zero."
  | .stated m => m

/-- Why a tree cannot be evaluated or shown. No source that was read without error has such a
    tree. -/
inductive Fault where
  /-- Evaluation met a node that has no value. -/
  | noValue
  | unknownUnary (op : Token)
  | unknownBinary (op : Token)
  /-- Something that is no statement stands in a list of statements. -/
  | notStatement
  /-- Something that is no expression stands inside a tree to be shown. -/
  | notExpression
  deriving DecidableEq, Repr

/-- The wording of a fault. -/
def Fault.message : Fault → String
  | .noValue => "Invalid expression node"
  | .unknownUnary op => "Unknown unary operator '" ++ op.lexeme ++ "'"
  | .unknownBinary op => "Unknown binary operator '" ++ op.lexeme ++ "'"
  | .notStatement => "Unknown statement type"
  | .notExpression => "Unknown expression type"

/-! ## 4. Diagnostics -/

/-- An error as a user reads it. -/
inductive Diagnostic where
  | lexical (e : LexicalError)
  | syntactic (e : SyntaxError)
  | runtime (e : RuntimeError)
  deriving DecidableEq, Repr

namespace Diagnostic

/-- The place of a syntax error: the end of the source, or a lexeme. -/
def place (t : Token) : String :=
  if t.kind = .eof then " at end" else " at '" ++ t.lexeme ++ "'"

/-- The line of a static error: its number, its place and its wording. -/
def staticText (line : Int) (place message : String) : String :=
  "[line " ++ toString line ++ "] Error" ++ place ++ ": " ++ message ++ "\n"

/-- The text of a diagnostic. -/
def text : Diagnostic → String
  | .lexical e => staticText e.line "" e.cause.message
  | .syntactic e => staticText e.token.line (place e.token) e.cause.message
  | .runtime e => e.message ++ "\n[line " ++ toString e.token.line ++ "]\n"

/-- True of lexical and syntax errors. -/
def isStatic : Diagnostic → Bool
  | .runtime _ => false
  | _ => true

end Diagnostic

/-! ## 5. The reporter -/

/-- The memory of what has been reported since the last reset. -/
structure Reporter where
  /-- A lexical or syntax error has been reported. -/
  hadError : Bool := false
  /-- A runtime error has been reported. -/
  hadRuntimeError : Bool := false
  /-- How many lexical and syntax errors have been reported. -/
  errorCount : Nat := 0
  deriving DecidableEq, Repr, Inhabited

namespace Reporter

/-- The reporter after a diagnostic. -/
def report (r : Reporter) (d : Diagnostic) : Reporter :=
  if d.isStatic then { r with hadError := true, errorCount := r.errorCount + 1 }
  else { r with hadRuntimeError := true }

/-- The reporter after several diagnostics. -/
def reportAll (r : Reporter) (ds : List Diagnostic) : Reporter :=
  ds.foldl report r

/-- The reporter with its memory cleared. -/
def reset (_ : Reporter) : Reporter := {}

end Reporter

end Lox
