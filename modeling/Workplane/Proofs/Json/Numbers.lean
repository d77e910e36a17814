import Workplane.Json.Parser
import Workplane.Json.Printer
import Workplane.Proofs.Decimal.Digits

/-!
# Written numbers read back

A numeral is written with its sign, its digits, the point and the exponent (`Numeral.chars`), and
read back as the same numeral wherever a number may end (`Json.numeral_magnitudeChars`).
-/

namespace Workplane

namespace Numeral

/-! ### The written form of a numeral -/

/-- The point and the digits after it, if there is a point. -/
def fractionChars : Option (List Nat) → List Char
  | some ds => '.' :: digitChars ds
  | none => []

/-- The exponent part, if there is one. -/
def exponentChars : Option Int → List Char
  | some e => 'e' :: (if e < 0 then '-' else '+') :: digitChars (digits e.natAbs)
  | none => []

/-- A numeral without its sign. -/
def magnitudeChars (n : Numeral) : List Char :=
  digitChars n.whole ++ (fractionChars n.fraction ++ exponentChars n.exponent)

/-- A numeral. -/
def chars (n : Numeral) : List Char :=
  if n.negative then '-' :: n.magnitudeChars else n.magnitudeChars

/-- Digits before a point: a zero alone, or any that do not start with a zero. -/
def IsWhole (ds : List Nat) : Prop :=
  ds ≠ [] ∧ (∀ d ∈ ds, d < 10) ∧ (ds.head? = some 0 → ds = [0])

/-- The numeral can be spelled. -/
structure WellFormed (n : Numeral) : Prop where
  whole : IsWhole n.whole
  fraction : ∀ ds, n.fraction = some ds → ds ≠ [] ∧ ∀ d ∈ ds, d < 10

theorem isWhole_digits (n : Nat) : IsWhole (digits n) := by
  refine ⟨digits_ne_nil n, fun d => lt_ten_of_mem_digits, fun h => ?_⟩
  rcases Nat.eq_zero_or_pos n with rfl | hn
  · exact digits_of_lt (by decide)
  · exact absurd h (head?_digits hn)

end Numeral

namespace Json

open Numeral

/-! ### Digits -/

/-- What follows digits does not go on with a digit. -/
def EndsDigits (rest : List Symbol) : Prop :=
  ∀ c, rest.head? = some (some c) → c.isDigit = false

/-- What follows a number: nothing, a comma or a closing bracket. -/
def EndsNumber (rest : List Symbol) : Prop :=
  ∀ c, rest.head? = some (some c) → c = ',' ∨ c = ']' ∨ c = '}'

theorem takeDigits_of_endsDigits {rest : List Symbol} (h : EndsDigits rest) :
    takeDigits rest = ([], rest) := by
  rcases rest with - | ⟨_ | c, rest⟩
  · rfl
  · rfl
  · rw [takeDigits, h c rfl]
    rfl

theorem takeDigits_digitChars {ds : List Nat} (hds : ∀ d ∈ ds, d < 10) {rest : List Symbol}
    (h : EndsDigits rest) : takeDigits ((digitChars ds).map some ++ rest) = (ds, rest) := by
  induction ds with
  | nil => exact takeDigits_of_endsDigits h
  | cons d ds ih =>
    have hd : d < 10 := hds d (.head ds)
    have hdigit : d.digitChar.isDigit = true := by simpa using hd
    show takeDigits (some d.digitChar :: ((digitChars ds).map some ++ rest)) = _
    rw [takeDigits, hdigit, ih fun e he => hds e (.tail d he),
      Nat.toNat_digitChar_sub_48_of_lt_ten hd]
    rfl

theorem wholeDigits_digitChars {ds : List Nat} (hds : IsWhole ds) {rest : List Symbol}
    (h : EndsDigits rest) : wholeDigits ((digitChars ds).map some ++ rest) = some (ds, rest) := by
  obtain ⟨hne, hlt, hzero⟩ := hds
  rw [wholeDigits, takeDigits_digitChars hlt h]
  rcases ds with - | ⟨d, - | ⟨e, ds⟩⟩
  · exact absurd rfl hne
  · cases d <;> rfl
  · cases d with
    | zero => exact absurd (hzero rfl) (by simp)
    | succ d => rfl

/-! ### Numerals -/

theorem EndsNumber.endsDigits {rest : List Symbol} (h : EndsNumber rest) : EndsDigits rest := by
  intro c hc
  rcases h c hc with rfl | rfl | rfl <;> rfl

theorem endsDigits_exponentChars {e : Option Int} {rest : List Symbol} (h : EndsNumber rest) :
    EndsDigits ((exponentChars e).map some ++ rest) := by
  cases e with
  | none => exact h.endsDigits
  | some e =>
    intro c hc
    obtain rfl : 'e' = c := by simpa [exponentChars] using hc
    rfl

theorem endsDigits_fractionChars {ds : Option (List Nat)} {e : Option Int} {rest : List Symbol}
    (h : EndsNumber rest) :
    EndsDigits ((fractionChars ds).map some ++ ((exponentChars e).map some ++ rest)) := by
  cases ds with
  | none => exact endsDigits_exponentChars h
  | some ds =>
    intro c hc
    obtain rfl : '.' = c := by simpa [fractionChars] using hc
    rfl

theorem exponentDigits_signed {ds : List Nat} (hne : ds ≠ []) (hds : ∀ d ∈ ds, d < 10)
    {rest : List Symbol} (h : EndsNumber rest) (negative : Bool) :
    exponentDigits (some (if negative then '-' else '+') :: ((digitChars ds).map some ++ rest)) =
      some (if negative then -(ofDigits ds : Int) else ofDigits ds, rest) := by
  have htake := takeDigits_digitChars hds h.endsDigits
  cases negative <;> simp only [exponentDigits, if_true, Bool.false_eq_true, if_false, htake]

theorem exponentPart_exponentChars (e : Option Int) {rest : List Symbol} (h : EndsNumber rest) :
    exponentPart ((exponentChars e).map some ++ rest) = some (e, rest) := by
  cases e with
  | none =>
    show exponentPart rest = _
    unfold exponentPart
    split
    · rcases h _ rfl with h | h | h <;> exact absurd h (by decide)
    · rcases h _ rfl with h | h | h <;> exact absurd h (by decide)
    · rfl
  | some e =>
    have hsigned := exponentDigits_signed (digits_ne_nil e.natAbs)
      (fun d => lt_ten_of_mem_digits) h (decide (e < 0))
    have hvalue : (if decide (e < 0) then -(ofDigits (digits e.natAbs) : Int)
        else ofDigits (digits e.natAbs)) = e := by
      rw [ofDigits_digits]
      simp only [decide_eq_true_eq]
      split <;> omega
    rw [hvalue] at hsigned
    simp only [decide_eq_true_eq] at hsigned
    show (exponentDigits (some (if e < 0 then '-' else '+') ::
      ((digitChars (digits e.natAbs)).map some ++ rest))).bind _ = _
    rw [hsigned]
    rfl

theorem fractionDigits_fractionChars {ds : Option (List Nat)}
    (hds : ∀ es, ds = some es → es ≠ [] ∧ ∀ d ∈ es, d < 10) (e : Option Int)
    {rest : List Symbol} (h : EndsNumber rest) :
    fractionDigits ((fractionChars ds).map some ++ ((exponentChars e).map some ++ rest)) =
      some (ds, (exponentChars e).map some ++ rest) := by
  cases ds with
  | none =>
    show fractionDigits ((exponentChars e).map some ++ rest) = _
    unfold fractionDigits
    split
    · rename_i hdot
      have hends := endsDigits_exponentChars (e := e) h
      cases e with
      | none =>
        rcases h '.' (by rw [show rest = _ from hdot]; rfl) with h | h | h <;>
          exact absurd h (by decide)
      | some e => exact absurd hdot (by simp [exponentChars])
    · rfl
  | some ds =>
    obtain ⟨hne, hlt⟩ := hds ds rfl
    show fractionDigits (some '.' :: ((digitChars ds).map some ++ _)) = _
    rw [fractionDigits, takeDigits_digitChars hlt (endsDigits_exponentChars h)]
    cases ds with
    | nil => exact absurd rfl hne
    | cons d ds => rfl

/-- A written numeral is read as the numeral, whatever follows it. -/
theorem numeral_magnitudeChars {n : Numeral} (wf : n.WellFormed) {rest : List Symbol}
    (h : EndsNumber rest) :
    numeral n.negative (n.magnitudeChars.map some ++ rest) = some (n, rest) := by
  rw [magnitudeChars, List.map_append, List.map_append, List.append_assoc, List.append_assoc,
    numeral, wholeDigits_digitChars wf.whole (endsDigits_fractionChars h)]
  show (fractionDigits _).bind _ = _
  rw [fractionDigits_fractionChars wf.fraction n.exponent h]
  show (exponentPart _).bind _ = _
  rw [exponentPart_exponentChars n.exponent h]
  rfl

end Json

end Workplane
