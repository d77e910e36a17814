/-!
# Shortest decimal digits

A finite double is `significand * 2 ^ exponent`.  The reals that round to it form an interval
around it, whose ends belong to it when the significand is even.  `Binary.shortest` returns the
decimal `digits * 10 ^ power` with the largest power that lies in this interval, hence with the
fewest digits, and of the candidates with that power the one nearest to the double.
-/

namespace Workplane.Decimal

-- Powers are core's, whatever is in scope beside this module.
attribute [local instance (high)] instPowNat

/-- The magnitude of a finite double: `significand * 2 ^ exponent`. -/
structure Binary where
  significand : Nat
  exponent : Int
  /-- The next double below is half as far away as the next one above. -/
  closerBelow : Bool

namespace Binary

/-- The magnitude of a double with the given bits, for an exponent field below 2047. -/
def ofBits (bits : UInt64) : Binary :=
  let field : Nat := bits.toNat / 2 ^ (52 : Nat) % 2048
  let fraction : Nat := bits.toNat % 2 ^ (52 : Nat)
  if field = 0 then ⟨fraction, -1074, false⟩
  else ⟨2 ^ (52 : Nat) + fraction, (field : Int) - 1075, fraction == 0 && decide (1 < field)⟩

/-- The double and the ends of its rounding interval, as numerators over one denominator. -/
structure Interval where
  lower : Nat
  value : Nat
  upper : Nat
  denominator : Nat
  /-- Both ends round to the double. -/
  closed : Bool

/-- The interval of reals that round to `b`. -/
def interval (b : Binary) : Interval :=
  -- In quarters of the last binary digit, so that half the distance to a neighbour is whole.
  let below := if b.closerBelow then 1 else 2
  let lower := 4 * b.significand - below
  let value := 4 * b.significand
  let upper := 4 * b.significand + 2
  let closed := b.significand % 2 == 0
  match b.exponent - 2 with
  | .ofNat n => ⟨lower * 2 ^ n, value * 2 ^ n, upper * 2 ^ n, 1, closed⟩
  | .negSucc n => ⟨lower, value, upper, 2 ^ (n + 1), closed⟩

/-- The interval in units of `10 ^ power`. -/
def Interval.inUnits (i : Interval) : Int → Interval
  | .ofNat n => { i with denominator := i.denominator * 10 ^ n }
  | .negSucc n =>
    { i with lower := i.lower * 10 ^ (n + 1), value := i.value * 10 ^ (n + 1),
             upper := i.upper * 10 ^ (n + 1) }

/-- Whether the integer `d` lies in the interval. -/
def Interval.contains (i : Interval) (d : Nat) : Bool :=
  let n := d * i.denominator
  if i.closed then i.lower ≤ n && n ≤ i.upper else i.lower < n && n < i.upper

/-- The integer of the interval nearest to the value, an even one at a tie; `none` if there is
none. -/
def Interval.nearest? (i : Interval) : Option Nat :=
  let d := i.value / i.denominator
  let rest := i.value % i.denominator
  match i.contains d, i.contains (d + 1) with
  | true, true =>
    if 2 * rest < i.denominator then some d
    else if i.denominator < 2 * rest then some (d + 1)
    -- Both are equally near.
    else if d % 2 = 0 then some d else some (d + 1)
  | true, false => some d
  | false, true => some (d + 1)
  | false, false => none

/-- The largest of the powers `power`, `power - 1`, … with an integer in the interval, and that
integer.  `steps` bounds the search. -/
def search (i : Interval) : Nat → Int → Nat × Int
  | 0, power => (0, power)
  | steps + 1, power =>
    match (i.inUnits power).nearest? with
    | some d => (d, power)
    | none => search i steps (power - 1)

/-- The number of decimal digits of `n`, one for zero. -/
def digitCount (n : Nat) : Nat :=
  if n < 10 then 1 else digitCount (n / 10) + 1
termination_by n

/-- A power of ten above every number of the interval. -/
def Interval.powerAbove (i : Interval) : Int :=
  let quotient := i.upper / i.denominator
  if quotient = 0 then 1 - (digitCount (i.denominator / (i.upper + 1)) : Int)
  else digitCount quotient

/-- The shortest decimal `digits * 10 ^ power` that rounds to `b`, for a positive significand. -/
def shortest (b : Binary) : Nat × Int :=
  let i := b.interval
  -- Seventeen digits always lie in the interval, so twenty powers are enough.
  search i 20 i.powerAbove

end Binary

end Workplane.Decimal
