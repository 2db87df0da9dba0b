/-
  File:      Lox/Text/Quote.lean
  Subject:   Texts in quotes.

  A character that does not show is written as an escape, so that a quoted text stands on one line
  and can be told from any other.

  * `escaped` -- a character inside quotes;
  * `quoted` -- a text in quotes.
-/
import Lox.Text.Printable

namespace Lox.Text

/-- A number in hexadecimal digits, filled up with zeros. -/
def hexadecimal (width n : Nat) : String :=
  String.ofList ((Nat.toDigits 16 n).leftpad width '0')

/-- A character written by its code point, with two, four or eight digits. -/
def numericEscape (c : Char) : String :=
  if c.toNat < 0x100 then "\\x" ++ hexadecimal 2 c.toNat
  else if c.toNat < 0x10000 then "\\u" ++ hexadecimal 4 c.toNat
  else "\\U" ++ hexadecimal 8 c.toNat

/-- A character inside quotes: the quote itself, the backslash and what does not show are
    escaped. -/
def escaped (quote c : Char) : String :=
  if c = '\\' || c = quote then String.ofList ['\\', c]
  else if c = '\n' then "\\n"
  else if c = '\r' then "\\r"
  else if c = '\t' then "\\t"
  else if isPrintable c then String.singleton c
  else numericEscape c

/-- The quote around a text: the single one, unless the text holds that one and no double one. -/
def quoteFor (text : String) : Char :=
  if '\'' ∈ text.toList ∧ ¬ '\"' ∈ text.toList then '\"' else '\''

/-- A text in quotes. -/
def quoted (text : String) : String :=
  let quote := quoteFor text
  String.singleton quote ++ String.join (text.toList.map (escaped quote)) ++ String.singleton quote

end Lox.Text
