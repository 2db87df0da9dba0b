/-
  File:      Lox/Text/Blank.lean
  Subject:   White space around a text.

  * `isWhite` -- the characters with the white-space property, and the four separators of the
    control block;
  * `strip` -- a text without white space at its ends.
-/
import Lox.Text.Ranges

namespace Lox.Text

/-- The ranges of white-space characters. -/
def whiteRanges : Ranges :=
  [(0x09, 0x0D), (0x1C, 0x20), (0x85, 0x85), (0xA0, 0xA0), (0x1680, 0x1680), (0x2000, 0x200A),
    (0x2028, 0x2029), (0x202F, 0x202F), (0x205F, 0x205F), (0x3000, 0x3000)]

/-- True of white-space characters. -/
def isWhite (c : Char) : Bool :=
  whiteRanges.holds c

/-- A text without white space at its ends. -/
def strip (text : String) : String :=
  String.ofList
    (((text.toList.dropWhile isWhite).reverse.dropWhile isWhite).reverse)

end Lox.Text
