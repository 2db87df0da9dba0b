/-
  File:      Lox/Text/Lines.lean
  Subject:   Texts read from outside: bytes, line ends, lines.

  * `unifyNewlines` -- the three ways to end a line become one;
  * `decode?` -- the text of a file;
  * `lines` -- the lines of a text, the last with or without an end.
-/
namespace Lox.Text

/-- A carriage return, with or without a newline behind it, becomes one newline. -/
def unifyNewlines : List Char → List Char
  | [] => []
  | '\r' :: '\n' :: cs => '\n' :: unifyNewlines cs
  | '\r' :: cs => '\n' :: unifyNewlines cs
  | c :: cs => c :: unifyNewlines cs

/-- A text with its line ends unified. -/
def withNewlines (text : String) : String :=
  String.ofList (unifyNewlines text.toList)

/-- The text that bytes encode, line ends unified; nothing if they are no strict encoding. -/
def decode? (bytes : ByteArray) : Option String :=
  (String.fromUTF8? bytes).map withNewlines

/-- The lines of a text, the first of them going on behind `begun`, which is held in reverse.
    A last line that is empty is no line. -/
def linesFrom (begun : List Char) : List Char → List String
  | [] => if begun.isEmpty then [] else [String.ofList begun.reverse]
  | '\n' :: cs => String.ofList begun.reverse :: linesFrom [] cs
  | c :: cs => linesFrom (c :: begun) cs

/-- The lines of a text, without their ends. -/
def lines (text : String) : List String :=
  linesFrom [] text.toList

end Lox.Text
