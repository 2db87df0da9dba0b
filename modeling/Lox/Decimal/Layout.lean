/-
  File:      Lox/Decimal/Layout.lean
  Subject:   How a number is written.

  A `Layout` holds the decisions of a number format; `Layout.write` follows them.  Digits are the
  fewest that read back, written positionally for exponents from -4 up to 15 and with a power
  of ten otherwise.
-/
import Lox.Decimal.Shortest

namespace Lox

/-- The decisions of a number format. -/
structure Layout where
  /-- The least decimal exponent that is written positionally. -/
  least : Int := -4
  /-- The first decimal exponent past the positional ones. -/
  bound : Int := 16
  /-- What follows a whole number in positional form. -/
  wholeTail : List Char
  /-- How many digits the power of ten has at least. -/
  powerWidth : Nat := 2

namespace Layout

/-- The power of ten: a sign and at least `powerWidth` digits. -/
def power (l : Layout) (p : Int) : List Char :=
  let digits := Nat.toDigits 10 p.natAbs
  (if p < 0 then '-' else '+') :: List.replicate (l.powerWidth - digits.length) '0' ++ digits

/-- A decimal in positional form. -/
def positional (l : Layout) (digits : List Char) : Int → List Char
  | .ofNat e => digits ++ List.replicate e '0' ++ l.wholeTail
  | .negSucc e =>
    let places := e + 1
    if places < digits.length then
      digits.take (digits.length - places) ++ '.' :: digits.drop (digits.length - places)
    else
      '0' :: '.' :: List.replicate (places - digits.length) '0' ++ digits

/-- A decimal with one digit before the point and a power of ten. -/
def scientific (l : Layout) (digits : List Char) (p : Int) : List Char :=
  digits.take 1 ++ (if digits.length ≤ 1 then [] else '.' :: digits.drop 1) ++ 'e' :: l.power p

/-- A decimal, in the form that its leading digit's exponent asks for. -/
def writeDecimal (l : Layout) (d : Decimal) : List Char :=
  let digits := Nat.toDigits 10 d.digits
  let p := d.exponent + digits.length - 1
  if l.least ≤ p ∧ p < l.bound then l.positional digits d.exponent else l.scientific digits p

/-- A double. -/
def writeChars (l : Layout) (x : Float) : List Char :=
  if x.isNaN then
    "nan".toList
  else
    let sign := if Double.isNegative x then ['-'] else []
    if x.isInf then sign ++ "inf".toList else sign ++ l.writeDecimal (Decimal.shortest x)

/-- The text of a double. -/
def write (l : Layout) (x : Float) : String :=
  String.ofList (l.writeChars x)

end Layout

/-- Numbers as programs print them: a whole number has no point. -/
def Layout.plain : Layout := { wholeTail := [] }

/-- Numbers as listings show them: a whole number ends in a point and a zero. -/
def Layout.pointed : Layout := { wholeTail := ['.', '0'] }

end Lox
