/-!
# Durations

The written form of a length of time in messages: in the largest of the units s, ms, µs and ns
that it fills, with the fraction digits that are needed and no more.
-/

namespace Workplane.Duration

-- Powers are core's, whatever is in scope beside this module.
attribute [local instance (high)] instPowNat

/-- The fraction `rest / 10 ^ width` with its point and without zeros at the end. -/
def fractionChars (width rest : Nat) : List Char :=
  if rest = 0 then []
  else
    let digits := Nat.toDigits 10 rest
    let padded := List.replicate (width - digits.length) '0' ++ digits
    '.' :: (padded.reverse.dropWhile (· == '0')).reverse

/-- A number of nanoseconds in the largest unit that it fills. -/
def text (nanoseconds : Nat) : String :=
  let inUnit (width : Nat) (unit : String) : String :=
    String.ofList (Nat.toDigits 10 (nanoseconds / 10 ^ width) ++
      fractionChars width (nanoseconds % 10 ^ width)) ++ unit
  if 10 ^ (9 : Nat) ≤ nanoseconds then inUnit 9 "s"
  else if 10 ^ (6 : Nat) ≤ nanoseconds then inUnit 6 "ms"
  else if 10 ^ (3 : Nat) ≤ nanoseconds then inUnit 3 "µs"
  else inUnit 0 "ns"

end Workplane.Duration
