/-
  File:      Lox/Text/Ranges.lean
  Subject:   Sets of characters, given by ranges of code points.

  * `Ranges.holds` -- a character is in one of the ranges.
-/
namespace Lox.Text

/-- Ranges of code points, both ends included. -/
abbrev Ranges := List (Nat × Nat)

namespace Ranges

/-- True of the characters in one of the ranges. -/
def holds (rs : Ranges) (c : Char) : Bool :=
  rs.any fun (lo, hi) => lo ≤ c.toNat && c.toNat ≤ hi

end Ranges

end Lox.Text
