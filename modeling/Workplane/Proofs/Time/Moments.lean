import Mathlib.Tactic.IntervalCases
import Workplane.Proofs.Decimal.Digits
import Workplane.Time.Timestamp

/-!
# Timestamps read back

A timestamp that a clock can show (`Timestamp.IsMoment`) is read back from its written form
(`Timestamp.parse_chars`).  Every number of the written form has its full width, so it ends where
the reader stops, and nothing of it is blank.
-/

namespace Workplane.Timestamp

open Numeral (digits digitChars ofDigits)

/-! ### Moments -/

/-- A date of the calendar and a time of day; only the last second of a minute can be a leap
second. -/
structure IsMoment (t : Timestamp) : Prop where
  date : isDate t.year t.month t.day = true
  hour : t.hour ≤ 23
  minute : t.minute ≤ 59
  second : t.second ≤ 59
  nanosecond : t.nanosecond < 1000000000 ∨ t.second = 59 ∧ t.nanosecond < 2000000000

instance (t : Timestamp) : Decidable t.IsMoment :=
  decidable_of_iff (isDate t.year t.month t.day = true ∧ t.hour ≤ 23 ∧ t.minute ≤ 59 ∧
      t.second ≤ 59 ∧ (t.nanosecond < 1000000000 ∨ t.second = 59 ∧ t.nanosecond < 2000000000))
    ⟨fun ⟨date, hour, minute, second, nanosecond⟩ => ⟨date, hour, minute, second, nanosecond⟩,
      fun h => ⟨h.date, h.hour, h.minute, h.second, h.nanosecond⟩⟩

/-! ### Numbers of a fixed width -/

/-- The digits of a number, with leading zeros up to a width. -/
def paddedDigits (width n : Nat) : List Nat :=
  List.replicate (width - (digits n).length) 0 ++ digits n

theorem padded_eq (width n : Nat) : padded width n = digitChars (paddedDigits width n) := by
  have hlength : (Nat.toDigits 10 n).length = (digits n).length := by
    rw [← Numeral.digitChars_digits, Numeral.length_digitChars]
  rw [padded, paddedDigits, Numeral.digitChars_append, Numeral.digitChars_replicate_zero,
    Numeral.digitChars_digits, hlength]

theorem lt_ten_of_mem_paddedDigits {width n d : Nat} (hd : d ∈ paddedDigits width n) : d < 10 := by
  rcases List.mem_append.1 hd with hd | hd
  · rw [List.eq_of_mem_replicate hd]
    decide
  · exact Numeral.lt_ten_of_mem_digits hd

theorem ofDigits_paddedDigits (width n : Nat) : ofDigits (paddedDigits width n) = n := by
  rw [paddedDigits, Numeral.ofDigits_append, Numeral.ofDigits_replicate_zero,
    Numeral.ofDigits_digits, Nat.zero_mul, Nat.zero_add]

theorem length_digits_le {width n : Nat} (hwidth : 0 < width) (h : n < 10 ^ width) :
    (digits n).length ≤ width := by
  rw [digits, List.length_map]
  exact (Nat.length_toDigits_le_iff (by decide) hwidth).2 h

theorem length_paddedDigits {width n : Nat} (hwidth : 0 < width) (h : n < 10 ^ width) :
    (paddedDigits width n).length = width := by
  have hle := length_digits_le hwidth h
  rw [paddedDigits, List.length_append, List.length_replicate]
  omega

/-! ### Reading digits -/

/-- No digit follows. -/
def EndsDigits (rest : List Char) : Prop :=
  ∀ c, rest.head? = some c → c.isDigit = false

theorem takeDigits_of_endsDigits {limit : Nat} {rest : List Char} (h : EndsDigits rest) :
    takeDigits limit rest = ([], rest) := by
  cases limit with
  | zero => rfl
  | succ limit =>
    cases rest with
    | nil => rfl
    | cons c rest =>
      rw [takeDigits, h c rfl]
      rfl

/-- Digits are taken as far as they go, or as far as the limit. -/
theorem takeDigits_digitChars {ds : List Nat} {limit : Nat} {rest : List Char}
    (hds : ∀ d ∈ ds, d < 10) (hlimit : ds.length ≤ limit)
    (hrest : EndsDigits rest ∨ ds.length = limit) :
    takeDigits limit (digitChars ds ++ rest) = (ds, rest) := by
  induction ds generalizing limit with
  | nil =>
    rcases hrest with hrest | rfl
    · exact takeDigits_of_endsDigits hrest
    · cases rest <;> rfl
  | cons d ds ih =>
    obtain ⟨limit, rfl⟩ : ∃ l, limit = l + 1 := ⟨limit - 1, by simp at hlimit; omega⟩
    have hd : d < 10 := hds d (.head ds)
    have hdigit : (Nat.digitChar d).isDigit = true := by
      rw [Nat.isDigit_digitChar, decide_eq_true hd]
    have hvalue : (Nat.digitChar d).toNat - 48 = d := Nat.toNat_digitChar_sub_48_of_lt_ten hd
    simp only [List.length_cons, Nat.add_le_add_iff_right, Nat.add_right_cancel_iff] at hlimit hrest
    show takeDigits (limit + 1) (Nat.digitChar d :: (digitChars ds ++ rest)) = _
    rw [takeDigits, hdigit, ih (fun e he => hds e (.tail d he)) hlimit hrest, hvalue]
    rfl

/-- A text that starts with a digit starts with nothing blank. -/
theorem trimStart_digitChars {ds : List Nat} (hne : ds ≠ []) (hds : ∀ d ∈ ds, d < 10)
    (rest : List Char) : Text.trimStart (digitChars ds ++ rest) = digitChars ds ++ rest := by
  cases ds with
  | nil => exact absurd rfl hne
  | cons d ds =>
    have hd : d < 10 := hds d (.head ds)
    have hblank : Text.isBlank (Nat.digitChar d) = false := by
      interval_cases d <;> rfl
    show List.dropWhile _ (Nat.digitChar d :: (digitChars ds ++ rest)) = _
    rw [List.dropWhile_cons_of_neg (by simp [hblank])]
    rfl

/-- A number that was written with the width that the reader takes. -/
theorem number_padded {width n : Nat} (hwidth : 0 < width) (h : n < 10 ^ width)
    (rest : List Char) : number width (padded width n ++ rest) = some (n, rest) := by
  have hlength := length_paddedDigits hwidth h
  have hne : paddedDigits width n ≠ [] := by
    intro hnil
    rw [hnil] at hlength
    exact absurd hlength (by simp; omega)
  rw [number, padded_eq, trimStart_digitChars hne fun d => lt_ten_of_mem_paddedDigits,
    takeDigits_digitChars (fun d => lt_ten_of_mem_paddedDigits) (Nat.le_of_eq hlength)
      (Or.inr hlength)]
  cases hds : paddedDigits width n with
  | nil => exact absurd hds hne
  | cons d ds =>
    show some (ofDigits (d :: ds), rest) = _
    rw [← hds, ofDigits_paddedDigits]

theorem separator_cons {c : Char} (h : Text.isBlank c = false) (rest : List Char) :
    separator c (c :: rest) = some rest := by
  have htrim : Text.trimStart (c :: rest) = c :: rest :=
    List.dropWhile_cons_of_neg (by simp [h])
  rw [separator, htrim]
  exact if_pos rfl

/-! ### Years and fractions -/

/-- A year with a sign has any number of digits. -/
theorem yearNumber_signed {n : Nat} {rest : List Char} (hrest : EndsDigits rest) (negative : Bool) :
    yearNumber ((if negative then '-' else '+') :: (padded 4 n ++ rest)) =
      some (if negative then -(n : Int) else n, rest) := by
  have hne : paddedDigits 4 n ≠ [] := fun hnil =>
    Numeral.digits_ne_nil n (List.append_eq_nil_iff.1 hnil).2
  have hread : takeDigits (padded 4 n ++ rest).length (padded 4 n ++ rest) =
      (paddedDigits 4 n, rest) := by
    rw [padded_eq]
    refine takeDigits_digitChars (fun d => lt_ten_of_mem_paddedDigits) ?_ (Or.inl hrest)
    rw [List.length_append, Numeral.length_digitChars]
    exact Nat.le_add_right _ _
  have hvalue := ofDigits_paddedDigits 4 n
  cases hds : paddedDigits 4 n with
  | nil => exact absurd hds hne
  | cons d ds =>
    rw [hds] at hread hvalue
    generalize padded 4 n ++ rest = s at hread ⊢
    have hminus : Text.trimStart ('-' :: s) = '-' :: s := rfl
    have hplus : Text.trimStart ('+' :: s) = '+' :: s := rfl
    cases negative with
    | true => simp [yearNumber, hminus, hread, hvalue]
    | false => simp [yearNumber, hplus, hread, hvalue]

/-- A year without a sign has four digits. -/
theorem yearNumber_unsigned {n : Nat} (h : n < 10 ^ 4) (rest : List Char) :
    yearNumber (padded 4 n ++ rest) = some ((n : Int), rest) := by
  have hdigit {d : Nat} (hd : d < 10) (s : List Char) :
      yearNumber (Nat.digitChar d :: s) =
        (number 4 (Nat.digitChar d :: s)).map fun r => ((r.1 : Int), r.2) := by
    interval_cases d <;> rfl
  have hnumber := number_padded (by decide) h rest
  rw [padded_eq] at hnumber ⊢
  cases hds : paddedDigits 4 n with
  | nil => exact absurd (List.append_eq_nil_iff.1 hds).2 (Numeral.digits_ne_nil n)
  | cons d ds =>
    have hd : d < 10 := lt_ten_of_mem_paddedDigits (hds ▸ List.mem_cons_self)
    rw [hds] at hnumber
    show yearNumber (Nat.digitChar d :: (digitChars ds ++ rest)) = _
    rw [hdigit hd]
    show (number 4 (digitChars (d :: ds) ++ rest)).map _ = _
    rw [hnumber]
    rfl

theorem yearNumber_yearChars (year : Int) {rest : List Char} (hrest : EndsDigits rest) :
    yearNumber (yearChars year ++ rest) = some (year, rest) := by
  unfold yearChars
  split
  · rename_i hyear
    obtain ⟨n, rfl⟩ : ∃ n : Nat, year = n := ⟨year.toNat, by omega⟩
    rw [Int.toNat_natCast, yearNumber_unsigned (by omega)]
  · have hsigned := yearNumber_signed (n := year.natAbs) hrest (decide (year < 0))
    simp only [decide_eq_true_eq] at hsigned
    rw [List.cons_append, hsigned]
    split <;> · congr 2; omega

/-- A fraction is read back, whatever number of digits it was written with. -/
theorem fraction_fractionChars {n : Nat} (h : n < 1000000000) {rest : List Char}
    (hrest : EndsDigits rest) (hpoint : rest.head? ≠ some '.') :
    fraction (fractionChars n ++ rest) = some (n, rest) := by
  -- A fraction of up to nine digits is read as so many nanoseconds.
  have hread {width m : Nat} (hwidth : 0 < width) (hle : width ≤ 9) (hm : m < 10 ^ width) :
      fraction ('.' :: (padded width m ++ rest)) = some (m * 10 ^ (9 - width), rest) := by
    have hlength := length_paddedDigits hwidth hm
    have hvalue := ofDigits_paddedDigits width m
    have htake : takeDigits 9 (padded width m ++ rest) = (paddedDigits width m, rest) := by
      rw [padded_eq]
      exact takeDigits_digitChars (fun d => lt_ten_of_mem_paddedDigits) (by omega) (Or.inl hrest)
    have hdrop : rest.dropWhile Char.isDigit = rest := by
      cases rest with
      | nil => rfl
      | cons c rest => exact List.dropWhile_cons_of_neg (by simp [hrest c rfl])
    cases hds : paddedDigits width m with
    | nil =>
      rw [hds] at hlength
      exact absurd hlength (by simp; omega)
    | cons d ds =>
      rw [hds] at htake hlength hvalue
      generalize padded width m ++ rest = s at htake ⊢
      simp [fraction, htake, hvalue, hdrop, ← hlength]
  unfold fractionChars
  split
  · subst n
    cases rest with
    | nil => rfl
    | cons c rest =>
      have hc : c ≠ '.' := fun hc => hpoint (congrArg some hc)
      simp [fraction, hc]
  · split
    · rw [List.cons_append, hread (by decide) (by decide) (by omega)]
      congr 2
      omega
    · split
      · rw [List.cons_append, hread (by decide) (by decide) (by omega)]
        congr 2
        omega
      · rw [List.cons_append, hread (by decide) (by decide) (by omega)]
        congr 2
        omega

/-! ### Timestamps -/

theorem subtractMinutes_zero {t : Timestamp} (hhour : t.hour ≤ 23) (hminute : t.minute ≤ 59) :
    t.subtractMinutes 0 = t := by
  obtain ⟨year, month, day, hour, minute, second, nanosecond⟩ := t
  simp only at hhour hminute
  have hlow : ¬((hour * 60 + minute : Nat) : Int) - 0 < 0 := by omega
  have hhigh : ((hour * 60 + minute : Nat) : Int) - 0 < 1440 := by omega
  have hshown : ((((hour * 60 + minute : Nat) : Int) - 0) / 60).toNat = hour := by omega
  have hrest : ((((hour * 60 + minute : Nat) : Int) - 0) % 60).toNat = minute := by omega
  unfold subtractMinutes
  simp only [if_neg hlow, if_pos hhigh, hshown, hrest]

/-- The fields that a reader finds in the written form make the moment. -/
theorem ofFields_eq {t : Timestamp} (h : t.IsMoment) {second nanosecond : Nat}
    (hlow : t.nanosecond < 1000000000 → second = t.second ∧ nanosecond = t.nanosecond)
    (hhigh : ¬t.nanosecond < 1000000000 →
      second = t.second + 1 ∧ nanosecond = t.nanosecond - 1000000000) :
    ofFields t.year t.month t.day t.hour t.minute second nanosecond 0 = some t := by
  obtain ⟨hdate, hhour, hminute, hsecond, hnanosecond⟩ := h
  have hle : second ≤ 60 := by omega
  have hmoment : (if second = 60 then
      (⟨t.year, t.month, t.day, t.hour, t.minute, 59, nanosecond + 1000000000⟩ : Timestamp)
      else ⟨t.year, t.month, t.day, t.hour, t.minute, second, nanosecond⟩) = t := by
    obtain ⟨year, month, day, hour, minute, second', nanosecond'⟩ := t
    simp only at hlow hhigh hsecond hnanosecond
    split
    · simp only [mk.injEq, true_and]
      omega
    · simp only [mk.injEq, true_and]
      omega
  unfold ofFields
  rw [if_pos ⟨hdate, hhour, hminute, hle⟩]
  simp only [hmoment, subtractMinutes_zero hhour hminute, hdate, if_true]

/-- A moment is read back from its written form. -/
theorem parse_chars {t : Timestamp} (h : t.IsMoment) : parse t.chars = some t := by
  have hdash (rest : List Char) : separator '-' ('-' :: rest) = some rest :=
    separator_cons (by decide) rest
  have hcolon (rest : List Char) : separator ':' (':' :: rest) = some rest :=
    separator_cons (by decide) rest
  have hends (c : Char) (hc : c.isDigit = false) (rest : List Char) : EndsDigits (c :: rest) :=
    fun d hd => Option.some.inj hd ▸ hc
  have hmonth : t.month < 10 ^ 2 := by
    have hdate := h.date
    simp only [isDate, Bool.and_eq_true, decide_eq_true_eq] at hdate
    omega
  have hday : t.day < 10 ^ 2 := by
    have hdate := h.date
    have hdays : daysInMonth t.year t.month ≤ 31 := by
      unfold daysInMonth
      split
      · split <;> decide
      · split <;> decide
    simp only [isDate, Bool.and_eq_true, decide_eq_true_eq] at hdate
    omega
  have hhour : t.hour < 10 ^ 2 := h.hour.trans_lt (by decide)
  have hminute : t.minute < 10 ^ 2 := h.minute.trans_lt (by decide)
  -- Whatever second and fraction are written, they are read.
  have hread {second nanosecond : Nat} (hsecond : second < 10 ^ 2)
      (hnanosecond : nanosecond < 1000000000) :
      parse (yearChars t.year ++ '-' :: padded 2 t.month ++ '-' :: padded 2 t.day ++
        'T' :: padded 2 t.hour ++ ':' :: padded 2 t.minute ++ ':' :: padded 2 second ++
        fractionChars nanosecond ++ ['Z']) =
      ofFields t.year t.month t.day t.hour t.minute second nanosecond 0 := by
    have hfraction := fraction_fractionChars hnanosecond (hends 'Z' rfl [])
      (fun h => absurd (Option.some.inj h) (by decide))
    -- Each part is read off the front of what is left.
    have hpart {α : Type} {part : Option α} {a : α} {rest : α → Option Timestamp}
        (hread : part = some a) : part >>= rest = rest a := by
      rw [hread]
      rfl
    unfold parse
    simp only [List.append_assoc, List.cons_append]
    refine (hpart (yearNumber_yearChars _ (hends '-' rfl _))).trans ?_
    refine (hpart (hdash _)).trans ?_
    refine (hpart (number_padded (by decide) hmonth _)).trans ?_
    refine (hpart (hdash _)).trans ?_
    refine (hpart (number_padded (by decide) hday _)).trans ?_
    refine (hpart (number_padded (by decide) hhour _)).trans ?_
    refine (hpart (hcolon _)).trans ?_
    refine (hpart (number_padded (by decide) hminute _)).trans ?_
    refine (hpart (hcolon _)).trans ?_
    refine (hpart (number_padded (by decide) hsecond _)).trans ?_
    refine (hpart hfraction).trans ?_
    rfl
  have hsecond := h.second
  unfold chars
  rcases Nat.lt_or_ge t.nanosecond 1000000000 with hlt | hge
  · simp only [if_pos hlt]
    rw [hread (by omega) hlt]
    exact ofFields_eq h (fun _ => ⟨rfl, rfl⟩) fun hnot => absurd hlt hnot
  · have hnot : ¬t.nanosecond < 1000000000 := Nat.not_lt.2 hge
    have hleap : t.nanosecond - 1000000000 < 1000000000 := by
      have hnanosecond := h.nanosecond
      omega
    simp only [if_neg hnot]
    rw [hread (by omega) hleap]
    exact ofFields_eq h (fun hlt => absurd hlt hnot) fun _ => ⟨rfl, rfl⟩

theorem reader_toJson {t : Timestamp} (h : t.IsMoment) (room : Nat) :
    reader room t.toJson = some t := by
  show parse (String.ofList t.chars).toList = some t
  rw [String.toList_ofList, parse_chars h]

end Workplane.Timestamp
