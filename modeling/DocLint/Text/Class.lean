import DocLint.Text.Basic

/-!
# Character classes

A class of characters is a list of code point ranges, both ends included. The ASCII half of a
class is decided by a test of its own, so that the long tables are read for other characters
only.
-/

namespace DocLint.Text

/-- A range of code points, both ends included. -/
abbrev CodeRange := Nat × Nat

/-- The code point lies in one of the ranges. -/
def inRanges (ranges : List CodeRange) (n : Nat) : Bool :=
  ranges.any fun r => decide (r.1 ≤ n) && decide (n ≤ r.2)

/-- The character is ASCII. -/
def isAscii (c : Char) : Bool := decide (c.toNat < 128)

/-- Decides an ASCII character by `ascii` and any other one by the table. -/
def inClass (ascii : Char → Bool) (ranges : List CodeRange) (c : Char) : Bool :=
  if isAscii c then ascii c else inRanges ranges c.toNat

end DocLint.Text
