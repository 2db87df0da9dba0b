/-
  File:      Lox/Token/Scan.lean
  Subject:   A source cut into pieces, and the tokens among them.

  The source is cut from left to right.  A PIECE is a stretch of it that is read as one thing: a
  token, a blank, a comment, or something that is no word.  Nothing of the source is lost between
  two pieces.  The line of a piece is the line on which it ENDS, and the line is counted up while a
  piece is read.

  * `Piece.next`, `Piece.lineBehind` -- the piece at the front of a source, and the line behind it;
  * `located` -- the whole source cut up;
  * `scan` -- its tokens, its end marker and its lexical errors.
-/
import Lox.Diagnostic

namespace Lox

/-! ## 1. Pieces -/

/-- What a stretch of source is read as. -/
inductive Piece.Role where
  | token (kind : Token.Kind) (literal : Value)
  | blank
  | comment
  | unexpected (c : Char)
  /-- A string whose closing quote is missing: it runs to the end of the source. -/
  | unclosed
  /-- Digits that cannot be read as a number. -/
  | malformed
  deriving DecidableEq, Repr

/-- A stretch of source and what it is read as. -/
structure Piece where
  text : List Char
  role : Piece.Role
  deriving DecidableEq, Repr

namespace Piece

/-- The quotation mark around a string. -/
def quote : Char := '\"'

/-- True of the characters that separate words and mean nothing. -/
def isBlank (c : Char) : Bool :=
  c = ' ' || c = '\r' || c = '\t' || c = '\n'

/-- True of the characters that a word may begin with: letters and the underscore. -/
def startsWord (c : Char) : Bool :=
  c.isAlpha || c = '_'

/-- True of the characters that a word may go on with. -/
def continuesWord (c : Char) : Bool :=
  startsWord c || c.isDigit

/-- A token without a literal. -/
def word (kind : Token.Kind) (text : List Char) : Piece :=
  ⟨text, .token kind .nil⟩

/-- What is left of a block comment of which `depth` openings are still unclosed: it runs through
    the mark that closes the last of them, or to the end of the source. -/
def commentBody : (depth : Nat) → List Char → List Char
  | 0, _ => []
  | _ + 1, [] => []
  | depth + 1, '/' :: '*' :: cs => '/' :: '*' :: commentBody (depth + 2) cs
  | depth + 1, '*' :: '/' :: cs => '*' :: '/' :: commentBody depth cs
  | depth + 1, c :: cs => c :: commentBody (depth + 1) cs

/-- The piece that begins with a slash: a comment to the end of the line, a block comment, or a
    division sign. -/
def ofSlash : (rest : List Char) → Piece
  | '/' :: cs => ⟨'/' :: '/' :: cs.takeWhile (· ≠ '\n'), .comment⟩
  | '*' :: cs => ⟨'/' :: '*' :: commentBody 1 cs, .comment⟩
  | _ => word .slash ['/']

/-- The piece that begins with a quotation mark: a string up to the next mark. -/
def ofQuote (rest : List Char) : Piece :=
  let body := rest.takeWhile (· ≠ quote)
  match rest.dropWhile (· ≠ quote) with
  | [] => ⟨quote :: body, .unclosed⟩
  | _ :: _ => ⟨quote :: body ++ [quote], .token .string (.string (String.ofList body))⟩

/-- The text of the number that begins with the digit `c`: digits, and a point with digits behind
    it if a digit follows the point. -/
def numberText (c : Char) (rest : List Char) : List Char :=
  let whole := c :: rest.takeWhile Char.isDigit
  match rest.dropWhile Char.isDigit with
  | '.' :: d :: cs => if d.isDigit then whole ++ '.' :: d :: cs.takeWhile Char.isDigit else whole
  | _ => whole

/-- The piece that begins with the digit `c`. -/
def ofDigit (c : Char) (rest : List Char) : Piece :=
  let text := numberText c rest
  match Decimal.read? text with
  | some d => ⟨text, .token .number (.number d.toFloat)⟩
  | none => ⟨text, .malformed⟩

/-- The piece that begins with the letter `c`: a reserved word or an identifier. -/
def ofLetter (c : Char) (rest : List Char) : Piece :=
  let text := c :: rest.takeWhile continuesWord
  word (Token.Kind.ofWord (String.ofList text)) text

/-- The piece at the front of the source `c :: rest`. -/
def next (c : Char) (rest : List Char) : Piece :=
  match Token.Kind.ofSymbol? c, Token.Kind.ofExtensible? c with
  | some kind, _ => word kind [c]
  | none, some (alone, extended) =>
    if rest.head? = some '=' then word extended [c, '='] else word alone [c]
  | none, none =>
    if c = '/' then ofSlash rest
    else if isBlank c then ⟨[c], .blank⟩
    else if c = quote then ofQuote rest
    else if c.isDigit then ofDigit c rest
    else if startsWord c then ofLetter c rest
    else ⟨[c], .unexpected c⟩

end Piece

/-! ## 2. Lines -/

namespace Piece

/-- The line behind what is left of a string, if that begins on `line`: counted up at each line
    break before the closing mark. -/
def stringLine (line : Int) : List Char → Int
  | [] => line
  | c :: cs => if c = quote then line else stringLine (if c = '\n' then line + 1 else line) cs

/-- The line behind what is left of a block comment of which `depth` openings are still unclosed,
    if that begins on `line`: counted up at each line break. -/
def commentLine (line : Int) : (depth : Nat) → List Char → Int
  | 0, _ => line
  | _ + 1, [] => line
  | depth + 1, '/' :: '*' :: cs => commentLine line (depth + 2) cs
  | depth + 1, '*' :: '/' :: cs => commentLine line depth cs
  | depth + 1, c :: cs => commentLine (if c = '\n' then line + 1 else line) (depth + 1) cs

/-- The line behind the piece that begins with a slash, if that begins on `line`. A comment to the
    end of the line stops before the line break. -/
def slashLine (line : Int) : (rest : List Char) → Int
  | '*' :: cs => commentLine line 1 cs
  | _ => line

/-- The line behind the piece at the front of the source `c :: rest`, if that begins on `line`.
    It is counted up by a line break between words, inside a block comment and inside a string,
    and by nothing else. -/
def lineBehind (line : Int) (c : Char) (rest : List Char) : Int :=
  if c = '/' then slashLine line rest
  else if c = '\n' then line + 1
  else if c = quote then stringLine line rest
  else line

end Piece

/-- A source that begins on `line` cut into its pieces, each with the line behind it. -/
def located (line : Int) : List Char → List (Piece × Int)
  | [] => []
  | c :: rest =>
    let p := Piece.next c rest
    let behind := Piece.lineBehind line c rest
    (p, behind) :: located behind (rest.drop (p.text.length - 1))
termination_by source => source.length
decreasing_by simp only [List.length_drop, List.length_cons]; omega

/-- The line behind the last of the pieces, or `line` if there are none. -/
def lastLine (line : Int) (ps : List (Piece × Int)) : Int :=
  match ps.getLast? with
  | some (_, n) => n
  | none => line

/-! ## 3. Tokens and errors -/

/-- The token that a piece on a line is. -/
def Piece.token? (p : Piece) (line : Int) : Option Token :=
  match p.role with
  | .token kind literal => some { kind, lexeme := String.ofList p.text, literal, line }
  | _ => none

/-- The error that a piece on a line is. -/
def Piece.error? (p : Piece) (line : Int) : Option LexicalError :=
  match p.role with
  | .unexpected c => some ⟨line, .unexpectedCharacter c⟩
  | .unclosed => some ⟨line, .unterminatedString⟩
  | .malformed => some ⟨line, .malformedNumber⟩
  | _ => none

/-- What a scan finds in a source. -/
structure Scan where
  stream : Token.Stream
  errors : List LexicalError
  deriving DecidableEq, Repr

/-- The tokens and errors of a source that begins on `line`. -/
def scanFrom (line : Int) (source : List Char) : Scan :=
  let found := located line source
  { stream :=
      { tokens := found.filterMap fun (p, n) => p.token? n
        stop := Token.endOn (lastLine line found) }
    errors := found.filterMap fun (p, n) => p.error? n }

/-- The tokens and errors of a source text. -/
def scan (source : String) : Scan :=
  scanFrom 1 source.toList

end Lox
