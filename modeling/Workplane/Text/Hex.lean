/-!
# Hexadecimal

Bytes written as two lower-case hexadecimal digits each, and the value of one digit.
-/

namespace Workplane.Hex

/-- The lower-case hexadecimal digit of `n`, for `n < 16`. -/
def digit (n : Nat) : Char :=
  if n < 10 then Char.ofNat (48 + n) else Char.ofNat (87 + n)

/-- The value of a hexadecimal digit of either case. -/
def value? (c : Char) : Option Nat :=
  if '0' ≤ c ∧ c ≤ '9' then some (c.toNat - 48)
  else if 'a' ≤ c ∧ c ≤ 'f' then some (c.toNat - 87)
  else if 'A' ≤ c ∧ c ≤ 'F' then some (c.toNat - 55)
  else none

/-- Two digits for one byte, the high half first. -/
def ofByte (b : UInt8) : List Char :=
  [digit (b.toNat / 16), digit (b.toNat % 16)]

/-- The digits of a list of bytes. -/
def ofBytes (bs : List UInt8) : String :=
  String.ofList (bs.flatMap ofByte)

/-- Bytes from pairs of digits; `none` for an odd count or another character. -/
def toBytes? : List Char → Option (List UInt8)
  | [] => some []
  | [_] => none
  | h :: l :: rest => do
    let high ← value? h
    let low ← value? l
    let bytes ← toBytes? rest
    return UInt8.ofNat (16 * high + low) :: bytes

theorem value?_digit {n : Nat} (h : n < 16) : value? (digit n) = some n := by
  have : ∀ k : Fin 16, value? (digit k) = some k.val := by decide
  exact this ⟨n, h⟩

theorem toBytes?_ofByte (bs : List UInt8) : toBytes? (bs.flatMap ofByte) = some bs := by
  induction bs with
  | nil => rfl
  | cons b rest ih =>
    have hb : b.toNat < 256 := b.toNat_lt_size
    have high := value?_digit (show b.toNat / 16 < 16 by omega)
    have low := value?_digit (show b.toNat % 16 < 16 by omega)
    have whole : 16 * (b.toNat / 16) + b.toNat % 16 = b.toNat := by omega
    simp only [List.flatMap_cons, ofByte, List.cons_append, List.nil_append, toBytes?, high, low,
      ih, Option.bind_eq_bind, Option.bind_some, Option.pure_def, whole, UInt8.ofNat_toNat]

end Workplane.Hex
