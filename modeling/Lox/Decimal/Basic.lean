/-
  File:      Lox/Decimal/Basic.lean
  Subject:   Finite decimals and their digits.

  * `Decimal` -- a natural number of units of a power of ten;
  * `Decimal.trim` -- the same quantity with no trailing zero among its digits;
  * `Decimal.read?` -- the reading of `digits` or `digits.digits`, the two shapes of a number
    literal;
  * `Decimal.toFloat` -- the double nearest to a decimal.
-/
import Lox.Double

namespace Lox

/-- A finite decimal: `digits` units of ten to the power `exponent`. -/
structure Decimal where
  digits : Nat
  exponent : Int
  deriving DecidableEq, Repr, Inhabited

namespace Decimal

/-! ## 1. Trailing zeros -/

/-- The same quantity without trailing zeros among the digits; zero has the exponent zero. -/
def trim (d : Decimal) : Decimal :=
  if d.digits = 0 then ⟨0, 0⟩
  else if d.digits % 10 = 0 then trim ⟨d.digits / 10, d.exponent + 1⟩
  else d
termination_by d.digits
decreasing_by omega

/-! ## 2. Reading -/

/-- A decimal read from digits, or from digits, a point and digits. Each side of the point holds
    at least one digit; any other text is refused. -/
def read? (text : List Char) : Option Decimal :=
  let whole := text.takeWhile Char.isDigit
  match text.dropWhile Char.isDigit with
  | [] => if whole.isEmpty then none else some ⟨Nat.ofDigitChars 10 whole 0, 0⟩
  | c :: fraction =>
    if c = '.' ∧ ¬ whole.isEmpty ∧ ¬ fraction.isEmpty ∧ fraction.all Char.isDigit then
      some ⟨Nat.ofDigitChars 10 (whole ++ fraction) 0, - fraction.length⟩
    else
      none

/-- The double nearest to a decimal. -/
def toFloat (d : Decimal) : Float :=
  match d.exponent with
  | .ofNat e => Double.nearest (d.digits * Nat.pow 10 e) 1
  | .negSucc e => Double.nearest d.digits (Nat.pow 10 (e + 1))

end Decimal

end Lox
