import Workplane.Proofs.Time.Moments

/-!
# Timestamps as they are read

Whatever a text spells, with any offset, is a moment in UTC (`Timestamp.isMoment_of_parse`), so it
is read back from the form in which it is written.
-/

namespace Workplane.Timestamp

open Numeral (ofDigits)

/-! ### Fields -/

theorem toNat_sub_lt_ten {c : Char} (h : c.isDigit = true) : c.toNat - 48 < 10 := by
  simp only [Char.isDigit, Bool.and_eq_true, decide_eq_true_eq, ge_iff_le,
    UInt32.le_iff_toNat_le] at h
  have hnine : ('9' : Char).val.toNat = 57 := rfl
  have hle : c.toNat ≤ 57 := hnine ▸ h.2
  omega

theorem lt_ten_of_mem_takeDigits {limit : Nat} {s : List Char} {d : Nat}
    (hd : d ∈ (takeDigits limit s).1) : d < 10 := by
  induction limit generalizing s with
  | zero => cases s <;> exact absurd hd List.not_mem_nil
  | succ limit ih =>
    cases s with
    | nil => exact absurd hd List.not_mem_nil
    | cons c rest =>
      unfold takeDigits at hd
      split at hd
      · rename_i hdigit
        rcases List.mem_cons.1 hd with rfl | hd
        · exact toNat_sub_lt_ten hdigit
        · exact ih hd
      · exact absurd hd List.not_mem_nil

theorem length_takeDigits_le (limit : Nat) (s : List Char) :
    (takeDigits limit s).1.length ≤ limit := by
  induction limit generalizing s with
  | zero => cases s <;> exact Nat.le_refl 0
  | succ limit ih =>
    cases s with
    | nil => exact Nat.zero_le _
    | cons c rest =>
      unfold takeDigits
      split
      · exact Nat.succ_le_succ (ih rest)
      · exact Nat.zero_le _

/-- A fraction is less than a second. -/
theorem fraction_lt {s rest : List Char} {n : Nat} (h : fraction s = some (n, rest)) :
    n < 1000000000 := by
  unfold fraction at h
  split at h
  · rename_i s
    split at h
    · exact nomatch h
    · rename_i ds rest' _ htake
      obtain ⟨rfl, -⟩ := Prod.mk.inj (Option.some.inj h)
      have hds : (takeDigits 9 s).1 = ds := by rw [htake]
      have hdigits : ∀ d ∈ ds, d < 10 := fun d hd => lt_ten_of_mem_takeDigits (hds ▸ hd)
      have hlength : ds.length ≤ 9 := hds ▸ length_takeDigits_le 9 s
      calc ofDigits ds * 10 ^ (9 - ds.length)
        _ < 10 ^ ds.length * 10 ^ (9 - ds.length) :=
          Nat.mul_lt_mul_of_pos_right (Numeral.ofDigits_lt hdigits) (Nat.pow_pos (by decide))
        _ = 1000000000 := by rw [← Nat.pow_add, Nat.add_sub_cancel' hlength]
  · obtain ⟨rfl, -⟩ := Prod.mk.inj (Option.some.inj h)
    decide

/-- An offset is less than a day, either way. -/
theorem offset_lt {s rest : List Char} {o : Int} (h : offset s = some (o, rest)) :
    -1440 < o ∧ o < 1440 := by
  unfold offset at h
  simp only at h
  -- Every way to write an offset ends in hours and minutes of one sign, in zero, or in nothing.
  repeat' split at h
  all_goals cases h
  all_goals omega

/-! ### Moments -/

variable {t t' : Timestamp}

theorem time_nextDay (t : Timestamp) :
    t.nextDay.hour = t.hour ∧ t.nextDay.minute = t.minute ∧ t.nextDay.second = t.second ∧
      t.nextDay.nanosecond = t.nanosecond := by
  unfold nextDay
  split
  · exact ⟨rfl, rfl, rfl, rfl⟩
  · split <;> exact ⟨rfl, rfl, rfl, rfl⟩

theorem time_previousDay (t : Timestamp) :
    t.previousDay.hour = t.hour ∧ t.previousDay.minute = t.minute ∧
      t.previousDay.second = t.second ∧ t.previousDay.nanosecond = t.nanosecond := by
  unfold previousDay
  split
  · exact ⟨rfl, rfl, rfl, rfl⟩
  · split <;> exact ⟨rfl, rfl, rfl, rfl⟩

/-- An offset changes the hour and the minute, which stay those of a clock. -/
theorem time_subtractMinutes {offset : Int} (hhour : t.hour ≤ 23) (hminute : t.minute ≤ 59)
    (hoffset : -1440 < offset ∧ offset < 1440) :
    (t.subtractMinutes offset).hour ≤ 23 ∧ (t.subtractMinutes offset).minute ≤ 59 ∧
      (t.subtractMinutes offset).second = t.second ∧
      (t.subtractMinutes offset).nanosecond = t.nanosecond := by
  have hclock {m : Int} (hm : m < 1440) : (m / 60).toNat ≤ 23 ∧ (m % 60).toNat ≤ 59 := by omega
  unfold subtractMinutes
  simp only
  split
  · obtain ⟨h, m, s, n⟩ := time_previousDay { t with
      hour := ((((t.hour * 60 + t.minute : Nat) : Int) - offset + 1440) / 60).toNat
      minute := ((((t.hour * 60 + t.minute : Nat) : Int) - offset + 1440) % 60).toNat }
    rw [h, m, s, n]
    exact ⟨(hclock (by omega)).1, (hclock (by omega)).2, rfl, rfl⟩
  · split
    · exact ⟨(hclock (by omega)).1, (hclock (by omega)).2, rfl, rfl⟩
    · obtain ⟨h, m, s, n⟩ := time_nextDay { t with
        hour := ((((t.hour * 60 + t.minute : Nat) : Int) - offset - 1440) / 60).toNat
        minute := ((((t.hour * 60 + t.minute : Nat) : Int) - offset - 1440) % 60).toNat }
      rw [h, m, s, n]
      exact ⟨(hclock (by omega)).1, (hclock (by omega)).2, rfl, rfl⟩

/-- Fields that make a date and a time make a moment; a leap second is one with any offset. -/
theorem isMoment_of_ofFields {year : Int} {month day hour minute second nanosecond : Nat}
    {offset : Int} (hnanosecond : nanosecond < 1000000000)
    (hoffset : -1440 < offset ∧ offset < 1440)
    (h : ofFields year month day hour minute second nanosecond offset = some t) : t.IsMoment := by
  unfold ofFields at h
  split at h
  · rename_i hfields
    obtain ⟨-, hhour, hminute, hsecond⟩ := hfields
    -- The offset moves the date and the minutes, but not the seconds.
    have hmoment {t' : Timestamp} (hhour : t'.hour ≤ 23) (hminute : t'.minute ≤ 59)
        (hsecond : t'.second ≤ 59)
        (hnanosecond : t'.nanosecond < 1000000000 ∨ t'.second = 59 ∧ t'.nanosecond < 2000000000)
        (h : (if isDate (t'.subtractMinutes offset).year (t'.subtractMinutes offset).month
          (t'.subtractMinutes offset).day then some (t'.subtractMinutes offset) else none) =
            some t) : t.IsMoment := by
      obtain ⟨hhour', hminute', hsecond', hnanosecond'⟩ :=
        time_subtractMinutes hhour hminute hoffset
      split at h
      · rename_i hdate
        obtain rfl := Option.some.inj h
        rw [← hsecond'] at hsecond
        rw [← hsecond', ← hnanosecond'] at hnanosecond
        exact ⟨hdate, hhour', hminute', hsecond, hnanosecond⟩
      · cases h
    simp only at h
    split at h
    · have hleap : nanosecond + 1000000000 < 2000000000 := by omega
      exact hmoment hhour hminute (Nat.le_refl 59) (Or.inr ⟨rfl, hleap⟩) h
    · have hsecond : second ≤ 59 := by omega
      exact hmoment hhour hminute hsecond (Or.inl hnanosecond) h
  · cases h

theorem isMoment_of_parse {s : List Char} (h : parse s = some t) : t.IsMoment := by
  unfold parse at h
  obtain ⟨⟨year, s₁⟩, -, h⟩ := Option.bind_eq_some_iff.1 h
  obtain ⟨s₂, -, h⟩ := Option.bind_eq_some_iff.1 h
  obtain ⟨⟨month, s₃⟩, -, h⟩ := Option.bind_eq_some_iff.1 h
  obtain ⟨s₄, -, h⟩ := Option.bind_eq_some_iff.1 h
  obtain ⟨⟨day, s₅⟩, -, h⟩ := Option.bind_eq_some_iff.1 h
  simp only at h
  split at h
  case h_4 => cases h
  all_goals
    obtain ⟨s₆, -, h⟩ := Option.bind_eq_some_iff.1 h
    obtain ⟨⟨hour, s₇⟩, -, h⟩ := Option.bind_eq_some_iff.1 h
    obtain ⟨s₈, -, h⟩ := Option.bind_eq_some_iff.1 h
    obtain ⟨⟨minute, s₉⟩, -, h⟩ := Option.bind_eq_some_iff.1 h
    obtain ⟨s₁₀, -, h⟩ := Option.bind_eq_some_iff.1 h
    obtain ⟨⟨second, s₁₁⟩, -, h⟩ := Option.bind_eq_some_iff.1 h
    obtain ⟨⟨nanosecond, s₁₂⟩, hfraction, h⟩ := Option.bind_eq_some_iff.1 h
    obtain ⟨⟨offset, s₁₃⟩, hoffset, h⟩ := Option.bind_eq_some_iff.1 h
    simp only at h
    split at h
    · exact isMoment_of_ofFields (fraction_lt hfraction) (offset_lt hoffset) h
    · cases h

theorem isMoment_of_reader {room : Nat} {j : Json} (h : reader room j = some t) : t.IsMoment := by
  unfold reader at h
  split at h
  · exact isMoment_of_parse h
  · exact nomatch h

end Workplane.Timestamp
