/-
  File:      Lox/Decimal/Shortest.lean
  Subject:   The fewest digits that read back as a given double.

  * `Decimal.exact` -- the decimal expansion of a finite double, which always ends;
  * `Decimal.neighbours` -- the two decimals of fewer digits around a decimal;
  * `Decimal.shortest` -- of the decimals with the fewest digits that read back as the double,
    the one nearest to it; a tie goes to the even last digit.
-/
import Lox.Decimal.Basic

namespace Lox.Decimal

/-- The decimal that equals a finite double without its sign. Below the units of one, each
    halving is five units of the next decimal place. -/
def exact (x : Float) : Decimal :=
  let above := Double.shift x - Double.scale
  let below := Double.scale - Double.shift x
  ⟨Double.significand x * Nat.pow 2 above * Nat.pow 5 below, - below⟩

/-- The decimal below `d` and the one above it among those of `places` fewer digits, the nearer
    first; at equal distance the one with the even last digit. -/
def neighbours (d : Decimal) (places : Nat) : List Decimal :=
  let below := d.digits / Nat.pow 10 places
  let low : Decimal := ⟨below, d.exponent + places⟩
  let high : Decimal := ⟨below + 1, d.exponent + places⟩
  if Double.roundDiv d.digits (Nat.pow 10 places) = below then [low, high] else [high, low]

/-- Seventeen digits tell any two doubles apart. -/
def maxDigits : Nat := 17

/-- True when a decimal reads back as `x` without its sign. -/
def reads (x : Float) (d : Decimal) : Bool :=
  d.toFloat.toBits.toNat == Double.magnitude x

/-- The fewest digits that read back as a finite double without its sign. Its full expansion
    reads back in any case. -/
def shortest (x : Float) : Decimal :=
  let d := exact x
  let size := (Nat.toDigits 10 d.digits).length
  let found := (List.range' 1 maxDigits).findSome? fun n =>
    (d.neighbours (size - n)).find? (reads x)
  (found.getD d).trim

end Lox.Decimal
