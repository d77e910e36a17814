import Workplane.Proofs.Decimal.Stored

/-!
# Different doubles are written differently

The magnitudes of the finite doubles are ranked by their bits (`Binary.ofRank`).  The rounding
interval of each begins where that of the one before ends (`Binary.lowerEdge_succ`), and that end
belongs to just one of the two, whose significand is even.  So the shortest digits lie in one
interval only, and the numeral tells the double (`numeral_injective`).
-/

namespace Workplane.Decimal

open Numeral

/-! ### The value of a numeral -/

/-- The number that a numeral spells, without its sign. -/
def magnitudeOf (n : Numeral) : ℚ :=
  ofDigits (n.whole ++ n.fraction.getD []) *
    10 ^ (n.exponent.getD 0 - ((n.fraction.getD []).length : Int))

theorem magnitudeOf_positional (ds : List Nat) (point : Int) :
    magnitudeOf (positional ds point) = ofDigits ds * 10 ^ (point - ds.length) := by
  unfold magnitudeOf positional
  simp only [Option.getD_some, Option.getD_none]
  -- The digits are after the point, before it with zeros between, or on both sides.
  by_cases hpoint : point ≤ 0
  · simp only [if_pos hpoint]
    rw [ofDigits_append, ofDigits_append, ofDigits_replicate_zero, List.length_append,
      List.length_replicate]
    have hzero : ofDigits [0] = 0 := rfl
    have hpower : (0 : Int) - (((-point).toNat + ds.length : Nat) : Int) = point - ds.length := by
      omega
    rw [hzero, hpower]
    norm_num
  · simp only [if_neg hpoint]
    by_cases hlength : ds.length ≤ point.toNat
    · rw [if_pos hlength, List.take_of_length_le hlength, List.append_assoc, ofDigits_append,
        ofDigits_append, ofDigits_replicate_zero, List.length_append, List.length_replicate]
      have hzero : ofDigits [0] = 0 := rfl
      rw [hzero, Nat.zero_mul, Nat.zero_add, Nat.add_zero, Nat.cast_mul, Nat.cast_pow, mul_assoc,
        ← zpow_natCast, Nat.cast_ofNat, ← zpow_add₀ (by norm_num)]
      congr 2
      simp only [List.length_singleton]
      omega
    · rw [if_neg hlength, show point.toNat - ds.length = 0 by omega, List.replicate_zero,
        List.append_nil, List.take_append_drop, List.length_drop]
      congr 2
      omega

theorem magnitudeOf_scientific {ds : List Nat} (hne : ds ≠ []) (exponent : Int) :
    magnitudeOf (scientific ds exponent) = ofDigits ds * 10 ^ (exponent + 1 - ds.length) := by
  have hpos := List.length_pos_iff.2 hne
  have hfraction : (scientific ds exponent).fraction.getD [] = ds.drop 1 := by
    show (if ds.length ≤ 1 then none else some (ds.drop 1)).getD [] = _
    split
    · rename_i hone
      exact (List.drop_eq_nil_iff.2 hone).symm
    · rfl
  have hdigits : (scientific ds exponent).whole ++ ds.drop 1 = ds := List.take_append_drop 1 ds
  unfold magnitudeOf
  rw [hfraction, hdigits, List.length_drop]
  congr 2
  show exponent - _ = _
  omega

namespace Binary

/-- The numeral of a positive magnitude spells its shortest digits. -/
theorem magnitudeOf_numeral {b : Binary} (hpos : 0 < b.significand) :
    magnitudeOf b.numeral = b.shortest.1 * 10 ^ b.shortest.2 := by
  unfold Binary.numeral
  simp only [if_neg hpos.ne']
  split
  · rw [magnitudeOf_positional, ofDigits_digits]
    congr 2
    omega
  · rw [magnitudeOf_scientific (digits_ne_nil _), ofDigits_digits]
    congr 2
    omega

theorem magnitudeOf_numeral_zero {b : Binary} (h : b.significand = 0) :
    magnitudeOf b.numeral = 0 := by
  unfold Binary.numeral
  rw [if_pos h, magnitudeOf_positional]
  norm_num [ofDigits]

/-! ### Ranks -/

/-- The magnitude with a given rank: its bits are the rank. -/
def ofRank (n : Nat) : Binary :=
  if n / 2 ^ 52 = 0 then ⟨n % 2 ^ 52, -1074, false⟩
  else ⟨2 ^ 52 + n % 2 ^ 52, (n / 2 ^ 52 : Nat) - 1075, n % 2 ^ 52 == 0 && decide (1 < n / 2 ^ 52)⟩

theorem ofBits_eq_ofRank (bits : UInt64) : ofBits bits = ofRank (bits.toNat % 2 ^ 63) := by
  have hfield : bits.toNat % 2 ^ 63 / 2 ^ 52 = bits.toNat / 2 ^ 52 % 2048 := by omega
  have hfraction : bits.toNat % 2 ^ 63 % 2 ^ 52 = bits.toNat % 2 ^ 52 := by omega
  unfold ofBits ofRank
  rw [hfield, hfraction]

/-- Where the rounding interval of a magnitude begins. -/
def lowerEdge (b : Binary) : ℚ :=
  (4 * b.significand - if b.closerBelow then 1 else 2) * 2 ^ (b.exponent - 2)

/-- Where the rounding interval of a magnitude ends. -/
def upperEdge (b : Binary) : ℚ :=
  (4 * b.significand + 2) * 2 ^ (b.exponent - 2)

theorem lowerEdge_lt_upperEdge (b : Binary) : b.lowerEdge < b.upperEdge := by
  unfold lowerEdge upperEdge
  refine mul_lt_mul_of_pos_right ?_ (by positivity)
  split <;> linarith

/-- Each rounding interval begins where the one before ends. -/
theorem lowerEdge_succ (n : Nat) : (ofRank (n + 1)).lowerEdge = (ofRank n).upperEdge := by
  unfold lowerEdge upperEdge
  by_cases hlast : n % 2 ^ 52 + 1 < 2 ^ 52
  · -- The next magnitude has the same exponent.
    have hfield : (n + 1) / 2 ^ 52 = n / 2 ^ 52 := by omega
    have hfraction : (n + 1) % 2 ^ 52 = n % 2 ^ 52 + 1 := by omega
    by_cases hzero : n / 2 ^ 52 = 0
    · rw [ofRank, ofRank, if_pos hzero, if_pos (hfield.trans hzero), hfraction]
      simp only [Bool.false_eq_true, if_false]
      generalize (2 : ℚ) ^ ((-1074 : Int) - 2) = t
      push_cast
      ring
    · have hnonzero : (n % 2 ^ 52 + 1 == 0) = false := rfl
      rw [ofRank, ofRank, hfield, if_neg hzero, if_neg hzero, hfraction]
      simp only [hnonzero, Bool.false_and, Bool.false_eq_true, if_false]
      push_cast
      congr 1
      ring
  · -- The next magnitude is the first one with the next exponent.
    have hfield : (n + 1) / 2 ^ 52 = n / 2 ^ 52 + 1 := by omega
    have hfraction : (n + 1) % 2 ^ 52 = 0 := by omega
    have hold : n % 2 ^ 52 = 2 ^ 52 - 1 := by omega
    by_cases hzero : n / 2 ^ 52 = 0
    · rw [ofRank, ofRank, hfield, hfraction, hold, if_pos hzero, hzero, if_neg (by decide)]
      show (4 * ((2 ^ 52 + 0 : Nat) : ℚ) - 2) * 2 ^ (-1074 - 2 : Int) =
        (4 * ((2 ^ 52 - 1 : Nat) : ℚ) + 2) * 2 ^ (-1074 - 2 : Int)
      congr 1
      norm_num
    · have hlt : 1 < n / 2 ^ 52 + 1 := by omega
      have hpower : (2 : ℚ) ^ (((n / 2 ^ 52 + 1 : Nat) : Int) - 1075 - 2) =
          2 ^ (((n / 2 ^ 52 : Nat) : Int) - 1075 - 2) * 2 := by
        rw [← zpow_add_one₀ (by norm_num)]
        congr 1
        omega
      rw [ofRank, ofRank, hfield, hfraction, hold, if_neg hzero, if_neg (Nat.succ_ne_zero _)]
      simp only [beq_self_eq_true, decide_eq_true hlt, Bool.and_self, if_true, hpower]
      generalize (2 : ℚ) ^ (((n / 2 ^ 52 : Nat) : Int) - 1075 - 2) = t
      norm_num
      ring

theorem lowerEdge_lt {n m : Nat} (h : n < m) : (ofRank n).lowerEdge < (ofRank m).lowerEdge := by
  induction m, h using Nat.le_induction with
  | base =>
    rw [lowerEdge_succ]
    exact lowerEdge_lt_upperEdge _
  | succ m _ ih =>
    rw [lowerEdge_succ]
    exact ih.trans (lowerEdge_lt_upperEdge _)

theorem significand_mod_two (n : Nat) : (ofRank n).significand % 2 = n % 2 := by
  unfold ofRank
  split
  · show n % 2 ^ 52 % 2 = n % 2
    omega
  · show (2 ^ 52 + n % 2 ^ 52) % 2 = n % 2
    omega

theorem rank_eq_zero {n : Nat} (h : (ofRank n).significand = 0) : n = 0 := by
  unfold ofRank at h
  split at h
  · have hfraction : n % 2 ^ 52 = 0 := h
    omega
  · have hpositive : 2 ^ 52 + n % 2 ^ 52 = 0 := h
    omega

/-- A number is between the edges of a rounding interval, and not on them if the significand is
odd. -/
structure Rounds (b : Binary) (v : ℚ) : Prop where
  lower : b.lowerEdge ≤ v
  upper : v ≤ b.upperEdge
  lower_of_odd : b.significand % 2 = 1 → b.lowerEdge < v
  upper_of_odd : b.significand % 2 = 1 → v < b.upperEdge

/-- What the interval contains in some units is between its edges. -/
theorem rounds_of_contains {b : Binary} (hpos : 0 < b.significand) {power : Int} {d : Nat}
    (h : (b.interval.inUnits power).contains d = true) : b.Rounds (d * 10 ^ power) := by
  obtain ⟨a, c, ha, hc, hca, hinterval⟩ := exists_interval b
  obtain ⟨a', c', ha', hc', hac', hunits⟩ := b.interval.exists_inUnits power
  have hunit : (0 : ℚ) < a * c' := by positivity
  -- Over the common denominator, the edges are whole numbers.
  have hlower : b.lowerEdge * (a * c') =
      ((4 * b.significand - if b.closerBelow then 1 else 2 : Nat) * c * c' : Nat) := by
    have hbelow : (if b.closerBelow then 1 else 2) ≤ 4 * b.significand := by split <;> omega
    unfold lowerEdge
    rw [Nat.cast_mul, Nat.cast_mul, Nat.cast_sub hbelow, hca]
    push_cast
    ring
  have hupper : b.upperEdge * (a * c') = ((4 * b.significand + 2) * c * c' : Nat) := by
    unfold upperEdge
    rw [Nat.cast_mul, Nat.cast_mul, hca]
    push_cast
    ring
  have hvalue : (d * 10 ^ power : ℚ) * (a * c') = (d * (a * a') : Nat) := by
    push_cast
    rw [hac']
    ring
  rw [hunits, hinterval] at h
  unfold Interval.contains at h
  simp only at h
  have hle {x y : ℚ} {m n : Nat} (hx : x * (a * c') = m) (hy : y * (a * c') = n) (h : m ≤ n) :
      x ≤ y := by
    refine le_of_mul_le_mul_right ?_ hunit
    rw [hx, hy]
    exact_mod_cast h
  have hlt {x y : ℚ} {m n : Nat} (hx : x * (a * c') = m) (hy : y * (a * c') = n) (h : m < n) :
      x < y := by
    refine lt_of_mul_lt_mul_right ?_ hunit.le
    rw [hx, hy]
    exact_mod_cast h
  split at h
  · rename_i heven
    have hnotodd : ¬b.significand % 2 = 1 := by
      rw [beq_iff_eq] at heven
      omega
    simp only [Bool.and_eq_true, decide_eq_true_eq] at h
    exact ⟨hle hlower hvalue h.1, hle hvalue hupper h.2, fun hodd => absurd hodd hnotodd,
      fun hodd => absurd hodd hnotodd⟩
  · simp only [Bool.and_eq_true, decide_eq_true_eq] at h
    exact ⟨hle hlower hvalue h.1.le, hle hvalue hupper h.2.le, fun _ => hlt hlower hvalue h.1,
      fun _ => hlt hvalue hupper h.2⟩

/-- No number is in the rounding intervals of two ranks. -/
theorem not_rounds_of_lt {n m : Nat} (h : n < m) {v : ℚ} (hn : (ofRank n).Rounds v) :
    ¬(ofRank m).Rounds v := by
  intro hm
  have hle : v ≤ (ofRank (n + 1)).lowerEdge := lowerEdge_succ n ▸ hn.upper
  rcases Nat.lt_or_eq_of_le h with hlt | rfl
  · exact absurd (hm.lower.trans hle) (not_le.2 (lowerEdge_lt hlt))
  · -- The common end belongs to the even rank of the two.
    have hm : (ofRank (n + 1)).Rounds v := hm
    have hparity := significand_mod_two n
    have hparity' := significand_mod_two (n + 1)
    rcases Nat.mod_two_eq_zero_or_one n with heven | hodd
    · exact absurd (hm.lower_of_odd (by omega)) (not_lt.2 hle)
    · have hlt : v < (ofRank (n + 1)).lowerEdge := lowerEdge_succ n ▸ hn.upper_of_odd (by omega)
      exact absurd hm.lower (not_le.2 hlt)

theorem eq_of_rounds {n m : Nat} {v : ℚ} (hn : (ofRank n).Rounds v) (hm : (ofRank m).Rounds v) :
    n = m := by
  rcases lt_trichotomy n m with h | rfl | h
  · exact absurd hm (not_rounds_of_lt h hn)
  · rfl
  · exact absurd hn (not_rounds_of_lt h hm)

/-- A rank is told by the number that its numeral spells. -/
theorem rank_injective {n m : Nat} (hn : (ofRank n).IsDouble) (hm : (ofRank m).IsDouble)
    (h : magnitudeOf (ofRank n).numeral = magnitudeOf (ofRank m).numeral) : n = m := by
  have hrounds {k : Nat} (hk : (ofRank k).IsDouble) (hpos : 0 < (ofRank k).significand) :
      (ofRank k).Rounds (magnitudeOf (ofRank k).numeral) := by
    rw [magnitudeOf_numeral hpos]
    obtain ⟨hnearest, -⟩ := search_shortest hpos hk.canonical.lt
    exact rounds_of_contains hpos (Interval.contains_of_nearest? hnearest)
  have hvalue {k : Nat} (hk : (ofRank k).IsDouble) (hpos : 0 < (ofRank k).significand) :
      magnitudeOf (ofRank k).numeral ≠ 0 := by
    rw [magnitudeOf_numeral hpos]
    obtain ⟨hdigits, -⟩ := shortest_bounds hpos hk.canonical.lt
    positivity
  rcases Nat.eq_zero_or_pos (ofRank n).significand with hn0 | hnpos <;>
    rcases Nat.eq_zero_or_pos (ofRank m).significand with hm0 | hmpos
  · rw [rank_eq_zero hn0, rank_eq_zero hm0]
  · exact absurd (h.symm.trans (magnitudeOf_numeral_zero hn0)) (hvalue hm hmpos)
  · exact absurd (h.trans (magnitudeOf_numeral_zero hm0)) (hvalue hn hnpos)
  · exact eq_of_rounds (hrounds hn hnpos) (h ▸ hrounds hm hmpos)

end Binary

/-! ### The numeral of a double -/

/-- A double is told by its numeral. -/
theorem numeral_injective {x y : Float} (hx : x.isFinite = true) (hy : y.isFinite = true)
    (h : numeral x = numeral y) : x = y := by
  have hbits : x.toBits = y.toBits := by
    have hsign : decide (2 ^ 63 ≤ x.toBits.toNat) = decide (2 ^ 63 ≤ y.toBits.toNat) :=
      congrArg Numeral.negative h
    have hmagnitude : magnitudeOf (Binary.ofBits x.toBits).numeral =
        magnitudeOf (Binary.ofBits y.toBits).numeral :=
      (congrArg magnitudeOf h : magnitudeOf (numeral x) = magnitudeOf (numeral y))
    have hdouble := isDouble_of_isFinite hx
    have hdouble' := isDouble_of_isFinite hy
    rw [Binary.ofBits_eq_ofRank] at hdouble hmagnitude
    rw [Binary.ofBits_eq_ofRank] at hdouble' hmagnitude
    have hrank := Binary.rank_injective hdouble hdouble' hmagnitude
    rw [decide_eq_decide] at hsign
    have hlt := x.toBits.toNat_lt
    have hlt' := y.toBits.toNat_lt
    apply UInt64.toNat_inj.1
    omega
  obtain ⟨⟨bits, valid⟩⟩ := x
  obtain ⟨⟨bits', valid'⟩⟩ := y
  obtain rfl : bits = bits' := hbits
  rfl

end Workplane.Decimal
