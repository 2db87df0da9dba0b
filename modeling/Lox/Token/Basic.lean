/-
  File:      Lox/Token/Basic.lean
  Subject:   Tokens: the words of a source.

  * `Token.Kind` -- what sort of word a token is, with its name in listings;
  * `Kind.ofSymbol?`, `Kind.ofExtensible?`, `Kind.ofWord` -- the spelling of each kind;
  * `Token` -- a kind with its lexeme, its literal value and its line;
  * `Token.Stream` -- the tokens of a source and the end marker behind them.
-/
import Lox.Value

namespace Lox

/-! ## 1. Kinds -/

/-- What sort of word a token is. -/
inductive Token.Kind where
  | leftParen | rightParen | leftBrace | rightBrace | comma | dot | minus | plus | semicolon
  | slash | star
  | bang | bangEqual | equal | equalEqual | greater | greaterEqual | less | lessEqual
  | identifier | string | number
  | andWord | classWord | elseWord | falseWord | forWord | funWord | ifWord | nilWord | orWord
  | printWord | returnWord | superWord | thisWord | trueWord | varWord | whileWord
  | eof
  deriving DecidableEq, Repr, Inhabited

namespace Token.Kind

/-- The name of a kind in listings. -/
def name : Kind → String
  | leftParen => "LEFT_PAREN"
  | rightParen => "RIGHT_PAREN"
  | leftBrace => "LEFT_BRACE"
  | rightBrace => "RIGHT_BRACE"
  | comma => "COMMA"
  | dot => "DOT"
  | minus => "MINUS"
  | plus => "PLUS"
  | semicolon => "SEMICOLON"
  | slash => "SLASH"
  | star => "STAR"
  | bang => "BANG"
  | bangEqual => "BANG_EQUAL"
  | equal => "EQUAL"
  | equalEqual => "EQUAL_EQUAL"
  | greater => "GREATER"
  | greaterEqual => "GREATER_EQUAL"
  | less => "LESS"
  | lessEqual => "LESS_EQUAL"
  | identifier => "IDENTIFIER"
  | string => "STRING"
  | number => "NUMBER"
  | andWord => "AND"
  | classWord => "CLASS"
  | elseWord => "ELSE"
  | falseWord => "FALSE"
  | forWord => "FOR"
  | funWord => "FUN"
  | ifWord => "IF"
  | nilWord => "NIL"
  | orWord => "OR"
  | printWord => "PRINT"
  | returnWord => "RETURN"
  | superWord => "SUPER"
  | thisWord => "THIS"
  | trueWord => "TRUE"
  | varWord => "VAR"
  | whileWord => "WHILE"
  | eof => "EOF"

/-- Every kind, in the order of its declaration. -/
def all : List Kind :=
  [leftParen, rightParen, leftBrace, rightBrace, comma, dot, minus, plus, semicolon, slash, star,
    bang, bangEqual, equal, equalEqual, greater, greaterEqual, less, lessEqual, identifier, string,
    number, andWord, classWord, elseWord, falseWord, forWord, funWord, ifWord, nilWord, orWord,
    printWord, returnWord, superWord, thisWord, trueWord, varWord, whileWord, eof]

/-- The kind of a given name. -/
def ofName? (s : String) : Option Kind :=
  all.find? fun k => k.name == s

/-! ## 2. Spelling -/

/-- The kind that a character spells on its own, whatever follows it. -/
def ofSymbol? : Char → Option Kind
  | '(' => some leftParen
  | ')' => some rightParen
  | '\x7b' => some leftBrace
  | '\x7d' => some rightBrace
  | ',' => some comma
  | '.' => some dot
  | '-' => some minus
  | '+' => some plus
  | ';' => some semicolon
  | '*' => some star
  | _ => none

/-- The kinds that a character spells alone and with an equals sign behind it. -/
def ofExtensible? : Char → Option (Kind × Kind)
  | '!' => some (bang, bangEqual)
  | '=' => some (equal, equalEqual)
  | '<' => some (less, lessEqual)
  | '>' => some (greater, greaterEqual)
  | _ => none

/-- The reserved words. -/
def keywords : List (String × Kind) :=
  [("and", andWord), ("class", classWord), ("else", elseWord), ("false", falseWord),
    ("for", forWord), ("fun", funWord), ("if", ifWord), ("nil", nilWord), ("or", orWord),
    ("print", printWord), ("return", returnWord), ("super", superWord), ("this", thisWord),
    ("true", trueWord), ("var", varWord), ("while", whileWord)]

/-- The kind of a word: its own if it is reserved, an identifier otherwise. -/
def ofWord (s : String) : Kind :=
  (keywords.lookup s).getD identifier

end Token.Kind

/-! ## 3. Tokens -/

/-- A word of a source. -/
structure Token where
  kind : Token.Kind
  /-- The text of the word. -/
  lexeme : String
  /-- The value of a number or a string; `nil` for every other word. -/
  literal : Value := .nil
  /-- The line on which the word ends, counted from one. -/
  line : Int := 1
  deriving DecidableEq, Repr, Inhabited

namespace Token

/-- The end marker on a line. -/
def endOn (line : Int) : Token :=
  { kind := .eof, lexeme := "", line }

/-- A token in a listing: its kind, its lexeme and its literal. -/
def listing (t : Token) : String :=
  t.kind.name ++ " " ++ t.lexeme ++ " " ++ t.literal.listing

/-- The tokens of a source and the end marker behind them. -/
structure Stream where
  tokens : List Token
  stop : Token
  deriving DecidableEq, Repr, Inhabited

/-- Every token of a stream, the end marker last. -/
def Stream.all (s : Stream) : List Token :=
  s.tokens ++ [s.stop]

/-- The end marker is the only token of its kind, and the last one. -/
structure Stream.Ended (s : Stream) : Prop where
  stop : s.stop.kind = .eof
  tokens : ∀ t ∈ s.tokens, t.kind ≠ .eof

end Token

end Lox
