import Workplane.Decimal.Shortest

/-!
# Decimal layouts

How the shortest digits of a double are written: which magnitudes are positional, whether a whole
number keeps a fraction, and how an exponent looks.  `Layout.stored` is the layout of stored texts
and answers; `Layout.plain` is the layout of messages.
-/

namespace Workplane.Decimal

-- Powers are core's, whatever is in scope beside this module.
attribute [local instance (high)] instPowNat

/-- The decisions of a number format. -/
structure Layout where
  /-- Decimal exponents from the first up to the second, both included, are written without an
  exponent part; `none` when all are. -/
  positional : Option (Int × Int)
  /-- A whole number is written with `.0`. -/
  keepsFraction : Bool

namespace Layout

/-- Stored texts: positional from `0.00001` to below `1e16`, always with a fraction. -/
def stored : Layout := ⟨some (-5, 15), true⟩

/-- Messages: always positional, a whole number without a fraction. -/
def plain : Layout := ⟨none, false⟩

/-- Whether a decimal exponent is written positionally. -/
def isPositional (l : Layout) (exponent : Int) : Bool :=
  match l.positional with
  | some (first, last) => first ≤ exponent && exponent ≤ last
  | none => true

/-- The digits with the point after the first `point` of them, filled up with zeros. -/
def positionalDigits (l : Layout) (digits : List Char) (point : Int) : List Char :=
  if point ≤ 0 then
    '0' :: '.' :: (List.replicate (-point).toNat '0' ++ digits)
  else
    let n := point.toNat
    if digits.length ≤ n then
      let fraction := if l.keepsFraction then ['.', '0'] else []
      digits ++ List.replicate (n - digits.length) '0' ++ fraction
    else digits.take n ++ '.' :: digits.drop n

/-- The digits in scientific form: one before the point, and the exponent with its sign. -/
def scientificDigits (digits : List Char) (exponent : Int) : List Char :=
  let mantissa := match digits with
    | first :: second :: rest => first :: '.' :: second :: rest
    | short => short
  let sign := if exponent < 0 then '-' else '+'
  mantissa ++ 'e' :: sign :: (Nat.toDigits 10 exponent.natAbs)

/-- The magnitude of a finite double with the given bits. -/
def magnitude (l : Layout) (bits : UInt64) : List Char :=
  let b := Binary.ofBits bits
  if b.significand = 0 then if l.keepsFraction then ['0', '.', '0'] else ['0']
  else
    let (d, power) := b.shortest
    let digits := Nat.toDigits 10 d
    let point := power + digits.length
    if l.isPositional (point - 1) then l.positionalDigits digits point
    else scientificDigits digits (point - 1)

/-- A finite double. -/
def finite (l : Layout) (x : Float) : List Char :=
  let bits := x.toBits
  if bits.toNat < 2 ^ (63 : Nat) then l.magnitude bits else '-' :: l.magnitude bits

/-- Any double; infinities and NaN are spelled out. -/
def text (l : Layout) (x : Float) : String :=
  if x.isNaN then "NaN"
  else if x.isInf then (if x < 0 then "-inf" else "inf")
  else String.ofList (l.finite x)

end Layout

end Workplane.Decimal
