/-!
# Decimal numerals

A numeral is the spelling of a number: a sign, the digits before the point, the digits after it,
and an exponent.  Its value as a double is found by scaling: as many leading digits as fit into
64 bits are kept, and the result is multiplied or divided by a power of ten.
-/

namespace Workplane

-- Powers are core's, whatever is in scope beside this module.
attribute [local instance (high)] instPowNat

/-- The spelling of a decimal number. -/
structure Numeral where
  negative : Bool
  /-- The digits before the point, most significant first. -/
  whole : List Nat
  /-- The digits after the point; `none` when there is no point. -/
  fraction : Option (List Nat)
  /-- The exponent; `none` when there is no exponent part. -/
  exponent : Option Int

namespace Numeral

/-- Appends digits to `acc` while the result stays below `2 ^ 64`; returns the digits left over. -/
def fill (acc : Nat) : List Nat → Nat × List Nat
  | [] => (acc, [])
  | d :: ds => if acc * 10 + d < 2 ^ (64 : Nat) then fill (acc * 10 + d) ds else (acc, d :: ds)

/-- The double nearest to `10 ^ n`. -/
def powerOfTen (n : Nat) : Float :=
  Float.ofScientific 1 false n

/-- Divides by `10 ^ n`, at most 308 powers at a time. -/
def scaleDown (x : Float) (n : Nat) : Float :=
  if n ≤ 308 then x / powerOfTen n
  else if x == 0 then x
  else scaleDown (x / powerOfTen 308) (n - 308)
termination_by n

/-- Multiplies by `10 ^ e`; `none` beyond the range of doubles. -/
def scale (x : Float) : Int → Option Float
  | .ofNat n =>
    if n ≤ 308 then
      let y := x * powerOfTen n
      if y.isInf then none else some y
    else if x == 0 then some x else none
  | .negSucc n => some (scaleDown x (n + 1))

/-- The value as a double; `none` beyond the range of doubles. -/
def toFloat? (n : Numeral) : Option Float := do
  -- Digits of the fraction may fit where a digit before the point did not.
  let (kept, wholeRest) := fill 0 n.whole
  let fraction := n.fraction.getD []
  let (kept, fractionRest) := fill kept fraction
  let shift := (wholeRest.length : Int) - ((fraction.length - fractionRest.length : Nat) : Int)
  let power : Int := n.exponent.getD 0
  let x ← scale kept.toUInt64.toFloat (shift + power)
  return if n.negative then -x else x

/-- The number that a list of digits spells. -/
def ofDigits (ds : List Nat) : Nat :=
  ds.foldl (fun acc d => acc * 10 + d) 0

/-- The value as an integer; `none` if the spelling has a point or an exponent, if it is a
negative zero, or if it does not fit into 64 bits (without a sign when not negative, with a sign
otherwise). -/
def toInt? (n : Numeral) : Option Int :=
  match n.fraction, n.exponent with
  | none, none =>
    let magnitude := ofDigits n.whole
    if n.negative then
      if 0 < magnitude ∧ magnitude ≤ 2 ^ (63 : Nat) then some (-(magnitude : Int)) else none
    else if magnitude < 2 ^ (64 : Nat) then some (magnitude : Int) else none
  | _, _ => none

end Numeral

end Workplane
