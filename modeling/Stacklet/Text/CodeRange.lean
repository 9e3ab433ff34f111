/-! # Ranges of code points

Character classes beyond ASCII are given as ascending lists of closed ranges.
-/

namespace Stacklet.Text

/-- First and last code point of a range, both included. -/
abbrev CodeRange := Nat × Nat

/-- Whether a character lies in one of the ranges. -/
def inRanges (ranges : List CodeRange) (c : Char) : Bool :=
  ranges.any fun range => range.1 ≤ c.toNat && c.toNat ≤ range.2

end Stacklet.Text
