import Workplane.Proofs.Decimal.Stored

/-!
# The sign of a stored double

Reading the spelling of a finite double gives a double of the same sign: a positive one is read as
a positive one again, however small it is (`Decimal.sign_toFloat?_numeral`).
-/

namespace Workplane.Double

open Float.Model Float.Model.UnpackedFloat

/-! ### Rounding from below -/

/-- A number whose bits suffice and whose magnitude is one of doubles is rounded to a double of at
least that magnitude. -/
theorem exists_round (s : Sign) {m : Nat} {e : Int} (a : Accuracy) (hm : 0 < m)
    (hbits : 52 ≤ m.log2 ∨ e ≤ -1074) (hlow : -1074 ≤ (m.log2 : Int) + e) :
    ∃ n f hn, roundWithAccuracy format s m e a = .finite s n f hn ∧
      (m.log2 : Int) + e ≤ n.log2 + f ∧ (f ≤ 971 → IsCanonical n f) := by
  have hs := shift_eq m e
  obtain ⟨j, hj, heq⟩ := roundWithAccuracy_eq s m e a
  have hsecond := shift_eq (rounded m e a) (e + shift m e)
  rw [← hj] at hsecond
  obtain ⟨hfirst, hfirstLog⟩ := log2_div_two_pow hm (show shift m e ≤ m.log2 by omega)
  have hle := le_rounded m e a
  have hr : m.log2 - shift m e ≤ (rounded m e a).log2 := by
    rw [← hfirstLog, Nat.le_log2 (hfirst.trans_le hle).ne']
    exact (Nat.log2_self_le hfirst.ne').trans hle
  obtain ⟨hpos, hlog⟩ := log2_div_two_pow (hfirst.trans_le hle)
    (show j ≤ (rounded m e a).log2 by omega)
  rw [dif_neg hpos.ne'] at heq
  refine ⟨_, _, _, heq, by omega, fun hhigh => ⟨?_, by omega, hhigh, ?_⟩⟩
  · exact (Nat.log2_lt hpos.ne').1 (by omega)
  · rw [or_iff_not_imp_left, ← Nat.le_log2 hpos.ne']
    omega

/-! ### Positive doubles -/

/-- The double is finite and not below `2 ^ k`. -/
def IsAbove (x : Float) (k : Int) : Prop :=
  ∃ m e hm, parts x = .finite .positive m e hm ∧ k ≤ m.log2 + e

theorem IsAbove.mono {x : Float} {j k : Int} (h : IsAbove x k) (hjk : j ≤ k) : IsAbove x j := by
  obtain ⟨m, e, hm, heq, hk⟩ := h
  exact ⟨m, e, hm, heq, hjk.trans hk⟩

/-- What is near a number is above its leading power of two. -/
theorem Approximates.isAbove {x : Float} {q : Nat} (h : Approximates x q) : IsAbove x q.log2 := by
  obtain ⟨m, e, hm, heq, hnear⟩ := h
  have hlog := hnear.log2_eq
  have hle := hnear.log2_le
  exact ⟨m, e, hm, heq, by omega⟩

/-- A finite result of an operation is not below what is rounded to it. -/
theorem isAbove_round {m : Nat} {e : Int} {a : Accuracy} (hm : 0 < m)
    (hbits : 52 ≤ m.log2 ∨ e ≤ -1074) {k : Int} (hk : k ≤ m.log2 + e) (hlow : -1074 ≤ k)
    (hfin : (Float.ofModel (Float.Model.pack
      (roundWithAccuracy format .positive m e a))).isFinite = true) :
    IsAbove (.ofModel (Float.Model.pack (roundWithAccuracy format .positive m e a))) k := by
  obtain ⟨n, f, hn, heq, hle, hcanonical⟩ := exists_round .positive a hm hbits (hlow.trans hk)
  rw [heq] at hfin ⊢
  exact ⟨n, f, hn, (hcanonical (le_of_isFinite_pack hfin)).parts_pack .positive hn, hk.trans hle⟩

/-- A finite product of what is near whole numbers is at least one. -/
theorem isAbove_mul {x y : Float} {a b : Nat} (hx : Approximates x a) (hy : Approximates y b)
    (hfin : (x * y).isFinite = true) : IsAbove (x * y) 0 := by
  obtain ⟨m, e, hm, hmeq, hm2⟩ := hx
  obtain ⟨n, f, hn, hneq, hn2⟩ := hy
  have hmul : x * y = .ofModel (Float.Model.pack
      (roundWithAccuracy format (.positive * .positive) (m * n) (e + f) .exact)) := by
    show Float.ofModel (Float.Model.pack (UnpackedFloat.mul format (parts x) (parts y))) = _
    rw [hmeq, hneq]
    rfl
  rw [hmul] at hfin ⊢
  have hbits : 104 ≤ (m * n).log2 := by
    rw [Nat.le_log2 (Nat.mul_pos hm hn).ne']
    have := Nat.mul_le_mul (Nat.log2_self_le hm.ne') (Nat.log2_self_le hn.ne')
    rwa [hm2.log2_eq, hn2.log2_eq] at this
  have he := hm2.log2_le
  have hf := hn2.log2_le
  exact isAbove_round (Nat.mul_pos hm hn) (Or.inl (by omega)) (by omega) (by decide) hfin

/-- A double divided by one below `2 ^ j`. -/
theorem IsAbove.div {x y : Float} {k : Int} {b j : Nat} (hx : IsAbove x k) (hy : Approximates y b)
    (hb : b < 2 ^ j) (hlow : -1074 ≤ k - j - 1) (hfin : (x / y).isFinite = true) :
    IsAbove (x / y) (k - j - 1) := by
  obtain ⟨m, e, hm, hmeq, hk⟩ := hx
  obtain ⟨n, f, hn, hneq, hnear⟩ := hy
  have hj : 52 + f ≤ j := by
    have hpow : (2 : ℚ) ^ (52 + f) < 2 ^ ((j : Int) + 1) :=
      calc (2 : ℚ) ^ (52 + f) = (2 ^ 52 : Nat) * 2 ^ f := by
            rw [zpow_add₀ (by norm_num)]
            norm_num
        _ ≤ n * 2 ^ f := by
            gcongr
            have := Nat.log2_self_le hn.ne'
            rwa [hnear.log2_eq] at this
        _ ≤ b * (1 + 1 / 2 ^ 52) := hnear.le
        _ ≤ b * 2 := by
            gcongr
            norm_num
        _ < 2 ^ j * 2 := by
            gcongr
            exact_mod_cast hb
        _ = 2 ^ ((j : Int) + 1) := by
            rw [zpow_add_one₀ (by norm_num), zpow_natCast]
    have := (zpow_lt_zpow_iff_right₀ (by norm_num)).1 hpow
    omega
  obtain ⟨t, ht, hdiv⟩ : ∃ t, t = min (e - f) (max ((m.log2 : Int) + e - 105 - f) (-1074)) ∧
      x / y = .ofModel (Float.Model.pack (roundWithAccuracy format .positive
        ((m <<< (e - f - t).toNat) / n) t
        (accuracyOfFraction ((m <<< (e - f - t).toNat) % n) n))) := by
    refine ⟨_, rfl, ?_⟩
    have htarget : format.targetExponent (totalExponent m e - totalExponent n f) =
        max ((m.log2 : Int) + e - 105 - f) (-1074) := by
      rw [targetExponent_eq, totalExponent, totalExponent, hnear.log2_eq]
      omega
    show Float.ofModel (Float.Model.pack (UnpackedFloat.div format (parts x) (parts y))) = _
    rw [hmeq, hneq, ← htarget]
    rfl
  rw [hdiv] at hfin ⊢
  -- The quotient keeps the bits of the dividend beyond the 53 of the divisor.
  have hlog : ((m <<< (e - f - t).toNat) / 2 ^ 53).log2 = m.log2 + (e - f - t).toNat - 53 ∧
      0 < (m <<< (e - f - t).toNat) / 2 ^ 53 := by
    rw [Nat.shiftLeft_eq]
    have hshift := log2_mul_two_pow hm (e - f - t).toNat
    obtain ⟨hpos, hlog⟩ := log2_div_two_pow (j := 53)
      (show 0 < m * 2 ^ (e - f - t).toNat by positivity) (by omega)
    exact ⟨by omega, hpos⟩
  have hle : (m <<< (e - f - t).toNat) / 2 ^ 53 ≤ (m <<< (e - f - t).toNat) / n :=
    Nat.div_le_div_left ((Nat.log2_lt hn.ne').1 (by rw [hnear.log2_eq]; decide)).le hn
  have hquot : m.log2 + (e - f - t).toNat - 53 ≤ ((m <<< (e - f - t).toNat) / n).log2 := by
    rw [← hlog.1, Nat.le_log2 (hlog.2.trans_le hle).ne']
    exact (Nat.log2_self_le hlog.2.ne').trans hle
  exact isAbove_round (hlog.2.trans_le hle) (by omega) (by omega) hlow hfin

/-! ### Comparing with zero -/

theorem lt_iff_parts (x y : Float) : x < y ↔ (parts x).lt (parts y) = true := by
  show Float.lt x y = true ↔ _
  unfold Float.lt
  rw [decide_eq_true_iff]
  exact Iff.rfl

theorem parts_zero : parts 0 = .zero .positive := by rfl

/-- A number that is not zero is above zero exactly if its sign is positive. -/
theorem pos_iff_of_finite {x : Float} {s : Sign} {m : Nat} {e : Int} {hm : 0 < m}
    (h : parts x = .finite s m e hm) : 0 < x ↔ s = .positive := by
  rw [lt_iff_parts, parts_zero, h]
  cases s with
  | positive => exact iff_of_true rfl rfl
  | negative => exact iff_of_false Bool.false_ne_true nofun

theorem neg_iff_of_finite {x : Float} {s : Sign} {m : Nat} {e : Int} {hm : 0 < m}
    (h : parts x = .finite s m e hm) : x < 0 ↔ s = .negative := by
  rw [lt_iff_parts, parts_zero, h]
  cases s with
  | positive => exact iff_of_false Bool.false_ne_true nofun
  | negative => exact iff_of_true rfl rfl

theorem not_pos_of_zero {x : Float} {s : Sign} (h : parts x = .zero s) : ¬ 0 < x := by
  rw [lt_iff_parts, parts_zero, h]
  exact Bool.false_ne_true

theorem not_neg_of_zero {x : Float} {s : Sign} (h : parts x = .zero s) : ¬ x < 0 := by
  rw [lt_iff_parts, parts_zero, h]
  exact Bool.false_ne_true

/-- The negative of something positive is below zero. -/
theorem neg_of_pos {x : Float} (hfin : x.isFinite = true) (hx : 0 < x) : -x < 0 ∧ ¬ 0 < -x := by
  obtain ⟨s, heq⟩ | ⟨s, m, e, hm, heq, hcanonical⟩ := parts_of_isFinite hfin
  · exact absurd hx (not_pos_of_zero heq)
  · obtain rfl := (pos_iff_of_finite heq).1 hx
    have hneg : parts (-x) = .finite .negative m e hm := by
      rw [← hcanonical.parts_pack .negative hm]
      show parts (.ofModel (Float.Model.pack (UnpackedFloat.neg (parts x)))) = _
      rw [heq]
      rfl
    exact ⟨(neg_iff_of_finite hneg).2 rfl, fun h => nomatch (pos_iff_of_finite hneg).1 h⟩

theorem not_neg_of_pos {x : Float} (hfin : x.isFinite = true) (hx : 0 < x) : ¬ x < 0 := by
  obtain ⟨s, heq⟩ | ⟨s, m, e, hm, heq, -⟩ := parts_of_isFinite hfin
  · exact not_neg_of_zero heq
  · obtain rfl := (pos_iff_of_finite heq).1 hx
    exact fun h => nomatch (neg_iff_of_finite heq).1 h

theorem IsAbove.pos {x : Float} {k : Int} (h : IsAbove x k) : 0 < x := by
  obtain ⟨m, e, hm, heq, -⟩ := h
  exact (pos_iff_of_finite heq).2 rfl

theorem IsAbove.beq_zero {x : Float} {k : Int} (h : IsAbove x k) : (x == 0) = false := by
  obtain ⟨m, e, hm, heq, -⟩ := h
  show ((parts x).compare (parts 0) == some .eq) = false
  rw [heq, parts_zero]
  rfl

theorem IsAbove.isFinite {x : Float} {k : Int} (h : IsAbove x k) : x.isFinite = true := by
  obtain ⟨m, e, hm, heq, -⟩ := h
  rw [isFinite_iff_parts, heq]
  rfl

end Workplane.Double

namespace Workplane.Numeral

open Double

/-! ### Scaling -/

/-- Dividing by a power of ten of the table takes at most 1025 bits. -/
theorem isAbove_div_powerOfTen {x : Float} {k : Int} (hx : IsAbove x k) {n : Nat} (hn : 0 < n)
    (hle : n ≤ 308) (hlow : -1074 ≤ k - 1025) : IsAbove (x / powerOfTen n) (k - 1025) := by
  have hpow : 10 ^ n < 2 ^ 1024 :=
    (Nat.pow_le_pow_right (by decide) hle).trans_lt (by decide +kernel)
  have hfin := isFinite_div hx.isFinite (approximates_powerOfTen hle) (two_le_log2_ten_pow hn)
  exact (hx.div (approximates_powerOfTen hle) hpow (by push_cast; omega) hfin).mono
    (by push_cast; omega)

/-- What is scaled down by a power of ten of the table stays positive. -/
theorem pos_scaleDown {x : Float} (hx : IsAbove x 0) {n : Nat} (hn : 0 < n) (hle : n ≤ 308) :
    0 < scaleDown x n := by
  rw [scaleDown, if_pos hle]
  exact (isAbove_div_powerOfTen hx hn hle (by decide)).pos

/-- Divisors above `10 ^ 308` do not make a double zero that has about as many bits as the part of
the divisor that remains. -/
theorem pos_scaleDown_add {x : Float} {k : Int} (hx : IsAbove x k) {n : Nat} (hn : 0 < n)
    (hle : n ≤ 308) (hk : ((10 ^ n).log2 : Int) ≤ k + 47) : 0 < scaleDown x (n + 308) := by
  have hlog := two_le_log2_ten_pow hn
  have hfirst := isAbove_div_powerOfTen hx (by decide) le_rfl (by omega)
  rw [scaleDown, if_neg (by omega), hx.beq_zero, if_neg (by decide), Nat.add_sub_cancel, scaleDown,
    if_pos hle]
  have hfin := isFinite_div hfirst.isFinite (approximates_powerOfTen hle) hlog
  exact (hfirst.div (approximates_powerOfTen hle) Nat.lt_log2_self (by push_cast; omega) hfin).pos

theorem isAbove_toFloat {k : UInt64} (hk : 0 < k.toNat) : IsAbove k.toFloat k.toNat.log2 :=
  (approximates_toFloat hk).isAbove

/-- A positive whole number that is scaled stays positive, if a divisor above `10 ^ 308` is not too
large for it. -/
theorem pos_of_scale {k : UInt64} (hk : 0 < k.toNat) {e : Int}
    (he : ∀ n : Nat, e = -(n + 308 : Nat) → 10 ^ n ≤ k.toNat * 2 ^ 47) {y : Float}
    (h : scale k.toFloat e = some y) : 0 < y := by
  have habove := isAbove_toFloat hk
  have hfin := isFinite_scale isFinite_toFloat h
  unfold scale at h
  split at h
  · rename_i n
    split at h
    · rename_i hn
      simp only at h
      split at h
      · exact nomatch h
      · obtain rfl := Option.some.inj h
        exact (isAbove_mul (approximates_toFloat hk) (approximates_powerOfTen hn) hfin).pos
    · rw [habove.beq_zero] at h
      exact nomatch h
  · rename_i n
    obtain rfl := Option.some.inj h
    -- A divisor above `10 ^ 308` is applied in two steps.
    rcases Nat.lt_or_ge n 308 with hn | hn
    · exact pos_scaleDown (habove.mono (by omega)) (Nat.succ_pos n) hn
    · obtain ⟨m, rfl⟩ : ∃ m, n = m + 308 := ⟨n - 308, by omega⟩
      have hle := he (m + 1) (by omega)
      have hpos : 0 < 10 ^ (m + 1) := by positivity
      have hlog : (10 ^ (m + 1)).log2 ≤ k.toNat.log2 + 47 := by
        rw [← log2_mul_two_pow hk, Nat.le_log2 (hpos.trans_le hle).ne']
        exact (Nat.log2_self_le hpos.ne').trans hle
      have hsmall : m + 1 ≤ 308 := by
        by_contra hlarge
        have hten : 10 ^ 34 ≤ 10 ^ (m + 1) := Nat.pow_le_pow_right (by decide) (by omega)
        have hmax : k.toNat * 2 ^ 47 < 10 ^ 34 :=
          (Nat.mul_lt_mul_of_pos_right k.toNat_lt (by decide)).trans_le (by decide)
        exact (hmax.trans_le hten).not_ge hle
      rw [show m + 308 + 1 = m + 1 + 308 by omega]
      exact pos_scaleDown_add habove (Nat.succ_pos m) hsmall (by omega)

end Workplane.Numeral

namespace Workplane.Decimal

open Numeral Double Float.Model Float.Model.UnpackedFloat

/-! ### The magnitude of a stored double -/

/-- The smallest magnitudes, which the general bound on quotients does not reach. -/
theorem pos_toFloat?_numeral_smallest : ∀ k < 32, 0 < k →
    (Binary.numeral ⟨k, -1074, false⟩).toFloat?.any (0 < ·) = true := by
  decide +kernel

/-- Apart from the smallest magnitudes, the digits have about as many bits as the part of the power
of ten above `10 ^ 308`. -/
theorem Binary.IsDouble.ten_pow_le {b : Binary} (h : b.IsDouble) (hsig : 32 ≤ b.significand)
    {n : Nat} (hn : b.shortest.2 = -(n + 308 : Nat)) : 10 ^ n ≤ b.shortest.1 * 2 ^ 47 := by
  obtain ⟨-, -, hge, -⟩ := Binary.shortest_bounds (by omega) h.canonical.lt
  rw [hn, zpow_neg, zpow_natCast, ← div_eq_mul_inv, le_div_iff₀ (by positivity)] at hge
  have hsig' : (32 : ℚ) ≤ b.significand := by exact_mod_cast hsig
  -- The lower end of the interval, at worst with the least exponent.
  have hlow : (2 : ℚ) ^ (-1070 : Int) ≤ (4 * b.significand - 2) * 2 ^ (b.exponent - 2) :=
    calc (2 : ℚ) ^ (-1070 : Int) = 2 ^ 6 * 2 ^ (-1076 : Int) := by
          rw [← zpow_natCast, ← zpow_add₀ (by norm_num)]
          rfl
      _ ≤ (4 * b.significand - 2) * 2 ^ (b.exponent - 2) := by
          have := h.canonical.ge
          exact mul_le_mul (by norm_num; linarith) (zpow_le_zpow_right₀ (by norm_num) (by omega))
            (by positivity) (by linarith)
  have hten : (2 : ℚ) ^ (1023 : Int) ≤ 10 ^ 308 := by
    rw [zpow_ofNat]
    exact_mod_cast (by decide +kernel : 2 ^ 1023 ≤ 10 ^ 308)
  have hle : (10 : ℚ) ^ n ≤ b.shortest.1 * 2 ^ 47 :=
    calc (10 : ℚ) ^ n = 2 ^ (-1070 : Int) * (10 ^ n * 2 ^ (1023 : Int)) * 2 ^ 47 := by
          have hone : (2 : ℚ) ^ (-1070 : Int) * 2 ^ (1023 : Int) * 2 ^ (47 : Int) = 1 := by
            rw [← zpow_add₀ (by norm_num), ← zpow_add₀ (by norm_num), ← zpow_zero 2]
            rfl
          rw [mul_left_comm, mul_assoc, ← zpow_ofNat 2 47, hone, mul_one]
      _ ≤ (4 * b.significand - 2) * 2 ^ (b.exponent - 2) * (10 ^ n * 10 ^ 308) * 2 ^ 47 := by
          have hten' := mul_le_mul_of_nonneg_left hten (by positivity : (0 : ℚ) ≤ 10 ^ n)
          have hlow' := mul_le_mul hlow hten' (by positivity)
            ((by positivity : (0 : ℚ) ≤ 2 ^ (-1070 : Int)).trans hlow)
          exact mul_le_mul_of_nonneg_right hlow' (by positivity)
      _ ≤ b.shortest.1 * 2 ^ 47 := by
          rw [← pow_add]
          gcongr
  exact_mod_cast hle

/-- What is written for a positive double is read back as something positive. -/
theorem Binary.IsDouble.pos_of_toFloat? {b : Binary} (h : b.IsDouble) (hpos : 0 < b.significand)
    {y : Float} (hy : b.numeral.toFloat? = some y) : 0 < y := by
  by_cases hsmall : b.significand < 32
  · have hb : b = ⟨b.significand, -1074, false⟩ := by
      rw [← h.canonical.normal.resolve_right (by omega), ← h.closerBelow (by omega)]
    have hany := pos_toFloat?_numeral_smallest b.significand hsmall hpos
    rw [← hb, hy] at hany
    exact of_decide_eq_true hany
  · obtain ⟨k, n, hk, hn, heq⟩ | ⟨k, hk, heq⟩ := h.toFloat?_numeral hpos
    · obtain rfl := Option.some.inj (heq.symm.trans hy)
      exact pos_scaleDown ((isAbove_toFloat hk).mono (by omega)) hn.1 hn.2
    · obtain ⟨hd, -⟩ := Binary.shortest_bounds hpos h.canonical.lt
      refine pos_of_scale (hk ▸ hd) (fun n hn => ?_) (heq.symm.trans hy)
      rw [hk]
      exact h.ten_pow_le (not_lt.1 hsmall) hn

/-! ### The sign of a double -/

theorem toNat_unpackMantissa (bits : UInt64) :
    (@unpackMantissa Double.format bits.toBitVec).toNat = bits.toNat % 2 ^ 52 := by
  simp [unpackMantissa, BitVec.extractLsb]

theorem ofBitVec_unpackSign (bits : UInt64) :
    Sign.ofBitVec (@unpackSign Double.format bits.toBitVec) =
      if 2 ^ 63 ≤ bits.toNat then .negative else .positive := by
  have hsign : (@unpackSign Double.format bits.toBitVec).toNat = bits.toNat / 2 ^ 63 := by
    have := bits.toNat_lt
    show (BitVec.cast _ (BitVec.extractLsb 63 63 bits.toBitVec)).toNat = _
    simp [BitVec.extractLsb, Nat.shiftRight_eq_div_pow]
    omega
  have hlt := bits.toNat_lt
  unfold Sign.ofBitVec
  split
  · rename_i hzero
    rw [hzero] at hsign
    have : 0 = bits.toNat / 2 ^ 63 := hsign
    rw [if_neg (by omega)]
  · rename_i hne
    rw [if_pos]
    by_contra hsmall
    exact hne (BitVec.eq_of_toNat_eq (hsign.trans (by rw [Nat.div_eq_of_lt (by omega)]; rfl)))

/-- The bits of a finite double give its parts. -/
theorem parts_eq_ofBits {x : Float} (h : x.isFinite = true) :
    (∃ s, parts x = .zero s ∧ (Binary.ofBits x.toBits).significand = 0) ∨
      ∃ hm, parts x = .finite (if 2 ^ 63 ≤ x.toBits.toNat then .negative else .positive)
        (Binary.ofBits x.toBits).significand (Binary.ofBits x.toBits).exponent hm := by
  have hexp := toNat_unpackExponent x.toBits
  have hmantissa := toNat_unpackMantissa x.toBits
  have hsign := ofBitVec_unpackSign x.toBits
  have hfull := Double.unpackExponent_ne_of_isFinite (b := x.toBits.toBitVec) h
  show (∃ s, UnpackedFloat.unpack Double.format x.toBits.toBitVec = .zero s ∧ _) ∨
    ∃ hm, UnpackedFloat.unpack Double.format x.toBits.toBitVec = _
  have hbias : (Double.format.exponentBias : Int) = 1023 := rfl
  have hbits : (Double.format.mantissaBitsWithoutImplicit : Int) = 52 := rfl
  unfold UnpackedFloat.unpack Binary.ofBits
  dsimp only
  rw [if_neg hfull]
  rcases Nat.eq_zero_or_pos (x.toBits.toNat / 2 ^ 52 % 2048) with h0 | hpos
  · have hexp0 : @unpackExponent Double.format x.toBits.toBitVec = 0#_ :=
      BitVec.eq_of_toNat_eq (hexp.trans h0)
    rw [if_pos hexp0, if_pos h0]
    dsimp only
    rcases Nat.eq_zero_or_pos (x.toBits.toNat % 2 ^ 52) with hm0 | hmpos
    · have hmantissa0 : @unpackMantissa Double.format x.toBits.toBitVec = 0#_ :=
        BitVec.eq_of_toNat_eq (hmantissa.trans hm0)
      rw [dif_pos hmantissa0]
      exact Or.inl ⟨_, rfl, hm0⟩
    · rw [dif_neg fun heq => by rw [heq] at hmantissa; exact hmpos.ne hmantissa]
      refine Or.inr ⟨hmpos, ?_⟩
      congr 1
      omega
  · rw [if_neg fun heq => by rw [heq] at hexp; exact hpos.ne hexp, if_neg hpos.ne']
    refine Or.inr ⟨by positivity, ?_⟩
    congr 1
    · rw [Double.toNat_one_append, hmantissa]
    · dsimp only
      omega

/-- Zero is read as a zero, with either sign. -/
theorem toFloat?_numeral_zero : ∀ negative : Bool,
    ({ positional [0] 1 with negative } : Numeral).toFloat?.any
      (fun y => !decide (0 < y) && !decide (y < 0)) = true := by
  decide +kernel

/-- Reading the spelling of a finite double keeps its sign. -/
theorem sign_toFloat?_numeral {x y : Float} (h : x.isFinite = true)
    (hy : (numeral x).toFloat? = some y) : (0 < y ↔ 0 < x) ∧ (y < 0 ↔ x < 0) := by
  obtain ⟨s, heq, hzero⟩ | ⟨hm, heq⟩ := parts_eq_ofBits h
  · have hnumeral : (Binary.ofBits x.toBits).numeral = positional [0] 1 := if_pos hzero
    have hany := toFloat?_numeral_zero (decide (2 ^ 63 ≤ x.toBits.toNat))
    rw [← hnumeral] at hany
    change (numeral x).toFloat?.any _ = true at hany
    rw [hy, Option.any_some, Bool.and_eq_true, Bool.not_eq_true', Bool.not_eq_true',
      decide_eq_false_iff_not, decide_eq_false_iff_not] at hany
    exact ⟨iff_of_false hany.1 (not_pos_of_zero heq), iff_of_false hany.2 (not_neg_of_zero heq)⟩
  · rw [toFloat?_numeral] at hy
    obtain ⟨z, hz, rfl⟩ := Option.map_eq_some_iff.1 hy
    have hpos := (isDouble_of_isFinite h).pos_of_toFloat? hm hz
    have hfin := isFinite_of_toFloat? hz
    rw [pos_iff_of_finite heq, neg_iff_of_finite heq]
    by_cases hsign : 2 ^ 63 ≤ x.toBits.toNat
    · obtain ⟨hneg, hnot⟩ := neg_of_pos hfin hpos
      rw [if_pos hsign, if_pos (decide_eq_true hsign)]
      exact ⟨iff_of_false hnot nofun, iff_of_true hneg rfl⟩
    · rw [if_neg hsign, if_neg (by simpa using hsign)]
      exact ⟨iff_of_true hpos rfl, iff_of_false (not_neg_of_pos hfin hpos) nofun⟩

end Workplane.Decimal
