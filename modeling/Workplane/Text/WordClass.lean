import Workplane.Text.WordTable

/-!
# Digits and word characters

`isDigit` and `isWordChar` decide the Unicode classes behind an address pattern: what counts as
a digit, and on which side of a word boundary a character stands.
-/

namespace Workplane.Text

/-- Whether `n` lies in one of the ranges. -/
def inRanges (ranges : Array (Nat × Nat)) (n : Nat) : Bool :=
  ranges.any fun r => r.1 ≤ n && n ≤ r.2

/-- A decimal digit of any script. -/
def isDigit (c : Char) : Bool :=
  if c.toNat < 0x80 then c.isDigit else inRanges digitRanges c.toNat

/-- A character of a word: alphabetic, a mark, a decimal digit, a connector or a join control. -/
def isWordChar (c : Char) : Bool :=
  if c.toNat < 0x80 then c.isAlphanum || c == '_' else inRanges wordRanges c.toNat

end Workplane.Text
