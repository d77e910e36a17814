import Mathlib.Algebra.Order.Field.Power
import Mathlib.Data.Rat.Cast.Order
import Mathlib.Tactic.Linarith
import Mathlib.Tactic.NormNum
import Mathlib.Tactic.Positivity
import Mathlib.Tactic.Ring
import Workplane.Decimal.Shortest

/-!
# The search for the shortest digits

A power of ten below half a binary digit has a multiple in the rounding interval, so the search
ends (`Binary.search_shortest`).  What it finds is positive, has fewer than 58 bits, and is at most
half a binary digit away from the double (`Binary.shortest_bounds`).
-/

namespace Workplane.Decimal.Binary

namespace Interval

/-! ### Units -/

/-- In other units the ends are multiplied by `c` and the denominator by `a`. -/
theorem exists_inUnits (i : Interval) (power : Int) :
    ∃ a c : Nat, 0 < a ∧ 0 < c ∧ (a : ℚ) = c * 10 ^ power ∧
      i.inUnits power =
        { i with lower := i.lower * c, value := i.value * c, upper := i.upper * c,
                 denominator := i.denominator * a } := by
  cases power with
  | ofNat n =>
    refine ⟨10 ^ n, 1, by positivity, Nat.one_pos, ?_, ?_⟩
    · rw [Int.ofNat_eq_natCast, zpow_natCast]
      push_cast
      ring
    · simp [inUnits]
  | negSucc n =>
    refine ⟨1, 10 ^ (n + 1), Nat.one_pos, by positivity, ?_, ?_⟩
    · rw [zpow_negSucc, Nat.cast_one, Nat.cast_pow, Nat.cast_ofNat, mul_inv_cancel₀ (by positivity)]
    · simp [inUnits]

theorem contains_bounds {i : Interval} {d : Nat} (h : i.contains d = true) :
    i.lower ≤ d * i.denominator ∧ d * i.denominator ≤ i.upper := by
  unfold contains at h
  simp only at h
  split at h <;> simp only [Bool.and_eq_true, decide_eq_true_eq] at h <;> omega

theorem contains_of_lt {i : Interval} {d : Nat} (hlow : i.lower < d * i.denominator)
    (hhigh : d * i.denominator < i.upper) : i.contains d = true := by
  unfold contains
  simp only
  split <;> simp only [Bool.and_eq_true, decide_eq_true_eq] <;> omega

/-- What lies in the interval is between its ends. -/
theorem contains_inUnits {i : Interval} {power : Int} {d : Nat}
    (h : (i.inUnits power).contains d = true) :
    (i.lower : ℚ) ≤ d * 10 ^ power * i.denominator ∧
      (d : ℚ) * 10 ^ power * i.denominator ≤ i.upper := by
  obtain ⟨a, c, -, hc, hac, heq⟩ := i.exists_inUnits power
  rw [heq] at h
  obtain ⟨hge, hle⟩ := contains_bounds h
  have hc' : (0 : ℚ) < c := by exact_mod_cast hc
  have hge' : (i.lower * c : ℚ) ≤ d * (i.denominator * a) := by exact_mod_cast hge
  have hle' : (d : ℚ) * (i.denominator * a) ≤ i.upper * c := by exact_mod_cast hle
  rw [hac] at hge' hle'
  constructor <;> refine le_of_mul_le_mul_right ?_ hc' <;> linarith

/-! ### The nearest integer -/

theorem contains_of_nearest? {i : Interval} {d : Nat} (h : i.nearest? = some d) :
    i.contains d = true := by
  unfold nearest? at h
  simp only at h
  split at h
  · split at h
    · obtain rfl := Option.some.inj h
      assumption
    · split at h
      · obtain rfl := Option.some.inj h
        assumption
      · split at h <;> obtain rfl := Option.some.inj h <;> assumption
  · obtain rfl := Option.some.inj h
    assumption
  · obtain rfl := Option.some.inj h
    assumption
  · exact nomatch h

/-- There is an integer in the interval when the upper end is more than one above the double. -/
theorem exists_nearest? {i : Interval} (hden : 0 < i.denominator) (hlow : i.lower < i.value)
    (h : i.value + i.denominator < i.upper) : ∃ d, i.nearest? = some d := by
  have hdiv := Nat.div_add_mod i.value i.denominator
  have hmod := Nat.mod_lt i.value hden
  have hmul : (i.value / i.denominator + 1) * i.denominator =
      i.denominator * (i.value / i.denominator) + i.denominator := by ring
  have hcontains : i.contains (i.value / i.denominator + 1) = true :=
    contains_of_lt (by omega) (by omega)
  unfold nearest?
  simp only [hcontains]
  split
  · split
    · exact ⟨_, rfl⟩
    · split
      · exact ⟨_, rfl⟩
      · split <;> exact ⟨_, rfl⟩
  · exact ⟨_, rfl⟩
  · exact ⟨_, rfl⟩
  · contradiction

theorem exists_nearest?_inUnits {i : Interval} (hden : 0 < i.denominator)
    (hlow : i.lower < i.value) {power : Int}
    (h : (i.value : ℚ) + i.denominator * 10 ^ power < i.upper) :
    ∃ d, (i.inUnits power).nearest? = some d := by
  obtain ⟨a, c, ha, hc, hac, heq⟩ := i.exists_inUnits power
  rw [heq]
  refine exists_nearest? (Nat.mul_pos hden ha) (Nat.mul_lt_mul_of_pos_right hlow hc) ?_
  have hc' : (0 : ℚ) < c := by exact_mod_cast hc
  have hmul := mul_lt_mul_of_pos_right h hc'
  have : (i.value * c + i.denominator * a : ℚ) < i.upper * c := by
    rw [hac]
    linarith
  exact_mod_cast this

end Interval

/-! ### The search -/

/-- The search finds the first power with an integer in the interval. -/
theorem search_spec (i : Interval) {steps k : Nat} {power : Int} (hk : k < steps)
    (h : ∃ d, (i.inUnits (power - k)).nearest? = some d) :
    ∃ d p, search i steps power = (d, p) ∧ (i.inUnits p).nearest? = some d ∧
      (p = power ∨ (i.inUnits (p + 1)).nearest? = none) := by
  induction steps generalizing k power with
  | zero => omega
  | succ steps ih =>
    cases hfound : (i.inUnits power).nearest? with
    | some d => exact ⟨d, power, by rw [search, hfound], hfound, Or.inl rfl⟩
    | none =>
      cases k with
      | zero =>
        obtain ⟨d, hd⟩ := h
        rw [show power - (0 : Nat) = power by omega, hfound] at hd
        exact nomatch hd
      | succ k =>
        rw [show power - (k + 1 : Nat) = power - 1 - k by omega] at h
        obtain ⟨d, p, hsearch, hd, hp⟩ := ih (by omega) h
        refine ⟨d, p, by rw [search, hfound, hsearch], hd, Or.inr ?_⟩
        rcases hp with rfl | hp
        · rwa [Int.sub_add_cancel]
        · exact hp

/-! ### Where the search starts -/

theorem digitCount_pos (n : Nat) : 0 < digitCount n := by
  unfold digitCount
  split <;> omega

theorem lt_ten_pow_digitCount (n : Nat) : n < 10 ^ digitCount n := by
  fun_induction digitCount n with
  | case1 n h => simpa using h
  | case2 n h ih =>
    rw [Nat.pow_succ]
    omega

theorem ten_pow_digitCount_le {n : Nat} (hn : 0 < n) : 10 ^ (digitCount n - 1) ≤ n := by
  fun_induction digitCount n with
  | case1 n h => exact hn
  | case2 n h ih =>
    have hpos := digitCount_pos (n / 10)
    have hstep := ih (by omega)
    calc 10 ^ (digitCount (n / 10) + 1 - 1) = 10 ^ (digitCount (n / 10) - 1) * 10 := by
          rw [← Nat.pow_succ, Nat.add_sub_cancel]
          congr 1
          omega
      _ ≤ n / 10 * 10 := Nat.mul_le_mul_right _ hstep
      _ ≤ n := Nat.div_mul_le_self n 10

/-- The first power is above the interval, and at most about ten times too large. -/
theorem powerAbove_bounds {i : Interval} (hden : 0 < i.denominator) :
    (i.upper : ℚ) < i.denominator * 10 ^ i.powerAbove ∧
      (i.denominator : ℚ) * 10 ^ (i.powerAbove - 1) ≤ i.upper + 1 := by
  unfold Interval.powerAbove
  simp only
  split
  -- The upper end is below one: its inverse has the digits that count.
  · rename_i h0
    have hlt : i.upper < i.denominator := (Nat.div_eq_zero_iff_lt hden).1 h0
    have hn : 0 < i.denominator / (i.upper + 1) := Nat.div_pos hlt (Nat.succ_pos _)
    have hlow := ten_pow_digitCount_le hn
    have hhigh := lt_ten_pow_digitCount (i.denominator / (i.upper + 1))
    have hpos := digitCount_pos (i.denominator / (i.upper + 1))
    generalize digitCount (i.denominator / (i.upper + 1)) = c at hlow hhigh hpos ⊢
    obtain ⟨c, rfl⟩ := Nat.exists_eq_succ_of_ne_zero hpos.ne'
    rw [Nat.le_div_iff_mul_le (Nat.succ_pos _)] at hlow
    rw [Nat.div_lt_iff_lt_mul (Nat.succ_pos _)] at hhigh
    have hfirst : 1 - ((c.succ : Nat) : Int) = -(c : Int) := by omega
    have hprev : -(c : Int) - 1 = -((c + 1 : Nat) : Int) := by omega
    rw [hfirst, hprev, zpow_neg, zpow_neg, zpow_natCast, zpow_natCast, ← div_eq_mul_inv,
      ← div_eq_mul_inv, lt_div_iff₀ (by positivity), div_le_iff₀ (by positivity)]
    constructor
    · have : ((10 ^ c * (i.upper + 1) : Nat) : ℚ) ≤ i.denominator := by exact_mod_cast hlow
      have hten : (0 : ℚ) < 10 ^ c := by positivity
      push_cast at this
      linarith
    · rw [mul_comm]
      exact_mod_cast hhigh.le
  -- The upper end has a whole part, whose digits count.
  · rename_i h0
    have hlow := ten_pow_digitCount_le (Nat.pos_of_ne_zero h0)
    have hhigh := lt_ten_pow_digitCount (i.upper / i.denominator)
    have hpos := digitCount_pos (i.upper / i.denominator)
    generalize digitCount (i.upper / i.denominator) = c at hlow hhigh hpos ⊢
    obtain ⟨c, rfl⟩ := Nat.exists_eq_succ_of_ne_zero hpos.ne'
    rw [Nat.le_div_iff_mul_le hden] at hlow
    rw [Nat.div_lt_iff_lt_mul hden] at hhigh
    have hprev : ((c.succ : Nat) : Int) - 1 = c := by omega
    rw [hprev, zpow_natCast, zpow_natCast, mul_comm (i.denominator : ℚ),
      mul_comm (i.denominator : ℚ)]
    refine ⟨by exact_mod_cast hhigh, ?_⟩
    have : ((10 ^ c * i.denominator : Nat) : ℚ) ≤ i.upper := by exact_mod_cast hlow
    push_cast at this
    linarith

/-! ### The interval of a double -/

/-- The interval in quarters of the last binary digit. -/
theorem exists_interval (b : Binary) :
    ∃ a c : Nat, 0 < a ∧ 0 < c ∧ (c : ℚ) = a * 2 ^ (b.exponent - 2) ∧
      b.interval =
        { lower := (4 * b.significand - if b.closerBelow then 1 else 2) * c
          value := 4 * b.significand * c
          upper := (4 * b.significand + 2) * c
          denominator := a
          closed := b.significand % 2 == 0 } := by
  unfold interval
  simp only
  split
  · rename_i n hn
    refine ⟨1, 2 ^ n, Nat.one_pos, by positivity, ?_, rfl⟩
    rw [hn, Int.ofNat_eq_natCast, zpow_natCast]
    push_cast
    ring
  · rename_i n hn
    refine ⟨2 ^ (n + 1), 1, by positivity, Nat.one_pos, ?_, by simp⟩
    rw [hn, zpow_negSucc, Nat.cast_one, Nat.cast_pow, Nat.cast_ofNat,
      mul_inv_cancel₀ (by positivity)]

/-- A quarter of the last binary digit is a whole number over the denominator. -/
theorem one_le_quarter (b : Binary) :
    (1 : ℚ) ≤ 2 ^ (b.exponent - 2) * b.interval.denominator := by
  obtain ⟨a, c, -, hc, hca, heq⟩ := exists_interval b
  rw [heq, mul_comm, ← hca]
  exact_mod_cast hc

/-- The ends of the interval are half a binary digit away from the double, and the lower one may be
nearer. -/
theorem interval_ends {b : Binary} (hpos : 0 < b.significand) :
    0 < b.interval.denominator ∧ b.interval.lower < b.interval.value ∧
      ((4 * b.significand - 2) * 2 ^ (b.exponent - 2) : ℚ) * b.interval.denominator ≤
        b.interval.lower ∧
      (b.interval.value : ℚ) = 4 * b.significand * 2 ^ (b.exponent - 2) * b.interval.denominator ∧
      (b.interval.upper : ℚ) =
        (4 * b.significand + 2) * 2 ^ (b.exponent - 2) * b.interval.denominator := by
  obtain ⟨a, c, ha, hc, hca, heq⟩ := exists_interval b
  have hbelow : (if b.closerBelow then 1 else 2) ≤ 2 := by split <;> omega
  have hbelow' : 0 < if b.closerBelow then 1 else 2 := by split <;> omega
  rw [heq]
  refine ⟨ha, Nat.mul_lt_mul_of_pos_right (by omega) hc, ?_, ?_, ?_⟩
  · have hle : (4 * b.significand - 2) * c ≤
        (4 * b.significand - if b.closerBelow then 1 else 2) * c :=
      Nat.mul_le_mul_right c (by omega)
    have hle' : ((4 * b.significand - 2 : Nat) * c : ℚ) ≤
        ((4 * b.significand - if b.closerBelow then 1 else 2 : Nat) * c : Nat) := by
      exact_mod_cast hle
    rw [Nat.cast_sub (by omega), hca] at hle'
    push_cast at hle' ⊢
    linarith
  · push_cast
    rw [hca]
    ring
  · push_cast
    rw [hca]
    ring

/-- A power of ten below half a binary digit has a multiple in the interval. -/
theorem exists_nearest?_interval {b : Binary} (hpos : 0 < b.significand) {power : Int}
    (h : (10 : ℚ) ^ power < 2 * 2 ^ (b.exponent - 2)) :
    ∃ d, (b.interval.inUnits power).nearest? = some d := by
  obtain ⟨hden, hlow, -, hvalue, hupper⟩ := interval_ends hpos
  refine Interval.exists_nearest?_inUnits hden hlow ?_
  have hden' : (0 : ℚ) < b.interval.denominator := by exact_mod_cast hden
  have := mul_lt_mul_of_pos_right h hden'
  rw [hvalue, hupper]
  linarith

/-- An integer of the interval is between its ends. -/
theorem contains_interval {b : Binary} (hpos : 0 < b.significand) {power : Int} {d : Nat}
    (h : (b.interval.inUnits power).nearest? = some d) :
    ((4 * b.significand - 2) * 2 ^ (b.exponent - 2) : ℚ) ≤ d * 10 ^ power ∧
      (d * 10 ^ power : ℚ) ≤ (4 * b.significand + 2) * 2 ^ (b.exponent - 2) := by
  obtain ⟨hden, -, hlower, -, hupper⟩ := interval_ends hpos
  obtain ⟨hge, hle⟩ := Interval.contains_inUnits (Interval.contains_of_nearest? h)
  have hden' : (0 : ℚ) < b.interval.denominator := by exact_mod_cast hden
  rw [hupper] at hle
  exact ⟨le_of_mul_le_mul_right (hlower.trans hge) hden', le_of_mul_le_mul_right hle hden'⟩

/-- The search ends with an integer of the interval.  Either its power is the first, or the one
above it is not below half a binary digit. -/
theorem search_shortest {b : Binary} (hpos : 0 < b.significand) (hlt : b.significand < 2 ^ 53) :
    (b.interval.inUnits b.shortest.2).nearest? = some b.shortest.1 ∧
      (b.shortest.2 = b.interval.powerAbove ∨
        (2 * 2 ^ (b.exponent - 2) : ℚ) ≤ 10 ^ (b.shortest.2 + 1)) := by
  -- Nineteen powers below the first one, a unit is less than half a binary digit.
  have hsmall : (10 : ℚ) ^ (b.interval.powerAbove - (19 : Nat)) < 2 * 2 ^ (b.exponent - 2) := by
    obtain ⟨hden, -, -, -, hupper⟩ := interval_ends hpos
    obtain ⟨-, hprev⟩ := powerAbove_bounds hden
    have hsplit : (10 : ℚ) ^ (b.interval.powerAbove - 1) =
        10 ^ (b.interval.powerAbove - (19 : Nat)) * 10 ^ 18 := by
      rw [← zpow_natCast, ← zpow_add₀ (by norm_num)]
      congr 1
      omega
    have hden' : (0 : ℚ) < b.interval.denominator := by exact_mod_cast hden
    have hone := one_le_quarter b
    have hsig : (b.significand : ℚ) * (2 ^ (b.exponent - 2) * b.interval.denominator) ≤
        2 ^ 53 * (2 ^ (b.exponent - 2) * b.interval.denominator) := by
      gcongr
      exact_mod_cast hlt.le
    rw [hupper, hsplit] at hprev
    refine lt_of_mul_lt_mul_right (a := (10 : ℚ) ^ 18 * b.interval.denominator) ?_ (by positivity)
    generalize (10 : ℚ) ^ (b.interval.powerAbove - (19 : Nat)) = t at hprev ⊢
    norm_num at hsig hprev ⊢
    linarith
  obtain ⟨d, p, hsearch, hd, hp⟩ := search_spec b.interval (by decide : 19 < 20)
    (exists_nearest?_interval hpos hsmall)
  have hshortest : b.shortest = (d, p) := hsearch
  rw [hshortest]
  refine ⟨hd, hp.imp_right fun hnone => ?_⟩
  -- Otherwise the power above has a multiple in the interval too.
  by_contra hlt'
  obtain ⟨d', hd'⟩ := exists_nearest?_interval hpos (not_le.1 hlt')
  rw [hnone] at hd'
  exact nomatch hd'

/-- The shortest digits are positive, have fewer than 58 bits, and are at most half a binary digit
away from the double. -/
theorem shortest_bounds {b : Binary} (hpos : 0 < b.significand) (hlt : b.significand < 2 ^ 53) :
    0 < b.shortest.1 ∧ b.shortest.1 < 2 ^ 58 ∧
      ((4 * b.significand - 2) * 2 ^ (b.exponent - 2) : ℚ) ≤
        b.shortest.1 * 10 ^ b.shortest.2 ∧
      (b.shortest.1 : ℚ) * 10 ^ b.shortest.2 ≤ (4 * b.significand + 2) * 2 ^ (b.exponent - 2) := by
  obtain ⟨hd, hp⟩ := search_shortest hpos hlt
  obtain ⟨hge, hle⟩ := contains_interval hpos hd
  have hten : (0 : ℚ) < 10 ^ b.shortest.2 := by positivity
  have htwo : (0 : ℚ) < 2 ^ (b.exponent - 2) := by positivity
  have hone : (1 : ℚ) ≤ b.significand := by exact_mod_cast hpos
  have hdpos : 0 < b.shortest.1 := by
    refine Nat.pos_of_ne_zero fun h0 => ?_
    rw [h0, Nat.cast_zero, zero_mul] at hge
    have : (0 : ℚ) < (4 * b.significand - 2) * 2 ^ (b.exponent - 2) :=
      mul_pos (by linarith) htwo
    linarith
  have hdone : (1 : ℚ) ≤ b.shortest.1 := by exact_mod_cast hdpos
  refine ⟨hdpos, ?_, hge, hle⟩
  -- Ten units of the last digit are no less than half a binary digit.
  have hunit : (2 * 2 ^ (b.exponent - 2) : ℚ) ≤ 10 ^ b.shortest.2 * 10 := by
    rcases hp with hp | hp
    -- The first power is itself above the interval.
    · exfalso
      obtain ⟨hden, -, -, -, hupper⟩ := interval_ends hpos
      have hden' : (0 : ℚ) < b.interval.denominator := by exact_mod_cast hden
      have habove := (powerAbove_bounds hden).1
      rw [hupper, mul_comm (b.interval.denominator : ℚ), ← hp] at habove
      have := lt_of_mul_lt_mul_right habove hden'.le
      have := mul_le_mul_of_nonneg_right hdone hten.le
      linarith
    · rwa [zpow_add_one₀ (by norm_num)] at hp
  have hmul := mul_le_mul_of_nonneg_left hunit (by positivity : (0 : ℚ) ≤ b.shortest.1)
  have hc2 : (b.shortest.1 : ℚ) * 2 ^ (b.exponent - 2) ≤
      (20 * b.significand + 10) * 2 ^ (b.exponent - 2) := by linarith
  have hd2 := le_of_mul_le_mul_right hc2 htwo
  have : b.shortest.1 ≤ 20 * b.significand + 10 := by exact_mod_cast hd2
  omega

end Workplane.Decimal.Binary
