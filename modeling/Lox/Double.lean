/-
  File:      Lox/Double.lean
  Subject:   Doubles as whole numbers of the smallest double.

  Every finite double is a whole number of UNITS, the unit being the smallest positive double
  (two to the power -1074).  On that scale all arithmetic here is exact:

  * `magnitude`, `isNegative`, `significand`, `shift` -- a double taken apart;
  * `roundDiv` -- a quotient rounded to the nearest natural number, a half to the even one;
  * `nearest` -- the double nearest to a fraction, the infinity past the largest double.
-/
namespace Lox.Double

/-! ## 1. A double taken apart -/

/-- The bits of a double without its sign. -/
def magnitude (x : Float) : Nat :=
  x.toBits.toNat % Nat.pow 2 63

/-- True of the doubles with a minus sign, the negative zero among them. -/
def isNegative (x : Float) : Bool :=
  Nat.pow 2 63 ≤ x.toBits.toNat

/-- One is two to this power of units. -/
def scale : Nat := 1074

/-- The significand of a finite double: the bit in front of the fraction is set unless the exponent
    field is zero. -/
def significand (x : Float) : Nat :=
  let fraction := magnitude x % Nat.pow 2 52
  if magnitude x / Nat.pow 2 52 = 0 then fraction else Nat.pow 2 52 + fraction

/-- How far the significand stands above the units. -/
def shift (x : Float) : Nat :=
  magnitude x / Nat.pow 2 52 - 1

/-! ## 2. The double nearest to a fraction -/

/-- The natural number nearest to `num / den`; a half goes to the even neighbour. -/
def roundDiv (num den : Nat) : Nat :=
  let q := num / den
  let r := num % den
  if den < 2 * r ∨ (2 * r = den ∧ q % 2 = 1) then q + 1 else q

/-- The bits of the positive infinity, past those of every finite double. -/
def infinityBits : Nat := 2047 * Nat.pow 2 52

/-- The bits of the non-negative double nearest to `num / den`.  The quotient in units keeps its
    53 leading bits, and `shift` counts the bits below those; a significand that rounds up to the
    next power of two carries into the exponent field by plain addition. -/
def nearestBits (num den : Nat) : Nat :=
  let n := num * Nat.pow 2 scale
  let shift := (n / den).log2 - 52
  min (shift * Nat.pow 2 52 + roundDiv n (den * Nat.pow 2 shift)) infinityBits

/-- The double nearest to `num / den`, ties to even. -/
def nearest (num den : Nat) : Float :=
  Float.ofBits (UInt64.ofNat (nearestBits num den))

end Lox.Double
