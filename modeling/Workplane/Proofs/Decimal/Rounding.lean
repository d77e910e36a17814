import Mathlib.Algebra.Order.Field.Power
import Mathlib.Data.Rat.Cast.Order
import Mathlib.Tactic.GCongr
import Mathlib.Tactic.Linarith
import Mathlib.Tactic.NormNum
import Mathlib.Tactic.Positivity
import Mathlib.Tactic.Ring

/-!
# When rounding stays finite

The operations on doubles compute an exact result and round it to 53 bits.  A rounded number is
finite when the bits of the exact one end below the range (`Double.fits_roundWithAccuracy`), or
when the exact one is not above the largest double (`Double.fits_round_of_le`).  Rounding adds at
most one part in `2 ^ 52` to the magnitude (`Double.magnitude_round_le`).
-/

namespace Workplane.Double

open Float.Model Float.Model.UnpackedFloat

/-- The format of doubles. -/
abbrev format : Format := Format.binary64

/-- The number is packed without an overflow, and is a number. -/
def Fits : UnpackedFloat → Prop
  | .zero _ => True
  | .finite _ _ e _ => e ≤ 971
  | .infinity _ | .notANumber => False

/-! ### Packing -/

/-- A packed number whose exponent field is not full is unpacked as a finite one. -/
theorem isFinite_unpack {s : Sign} {exponent : BitVec 11} {mantissa : BitVec 52}
    (h : exponent ≠ -1#_) :
    (UnpackedFloat.unpack format (packComponents format s exponent mantissa)).isFinite = true := by
  unfold UnpackedFloat.unpack
  dsimp only
  rw [if_neg (unpackExponent_packComponents.trans_ne h)]
  rcases eq_or_ne (@unpackExponent format (packComponents format s exponent mantissa)) 0#_ with
    hexp | hexp
  · rw [if_pos hexp]
    rcases eq_or_ne (@unpackMantissa format (packComponents format s exponent mantissa)) 0#_ with
      hmantissa | hmantissa
    · rw [dif_pos hmantissa]
      rfl
    · rw [dif_neg hmantissa]
      rfl
  · rw [if_neg hexp]
    rfl

/-- What fits is packed to a finite double. -/
theorem isFinite_pack {u : UnpackedFloat} (h : Fits u) : (Float.Model.pack u).isFinite = true := by
  show (UnpackedFloat.unpack format (UnpackedFloat.pack format u)).isFinite = true
  cases u with
  | infinity s => exact h.elim
  | notANumber => exact h.elim
  | zero s => exact isFinite_unpack (by decide)
  | finite s m e hm =>
    have he : e ≤ 971 := h
    unfold UnpackedFloat.pack
    have hbias : ((e + (1023 : Nat) + (52 : Nat)).toNat) + 1 < 2 ^ 11 := by omega
    dsimp only
    split
    · rename_i hover
      have : (e + (format.exponentBias : Nat) + (52 : Nat)).toNat + 1 < 2 ^ 11 := hbias
      omega
    · split
      · refine isFinite_unpack ?_
        intro heq
        have := congrArg BitVec.toNat heq
        simp at this
        have hb : (format.exponentBias) = 1023 := rfl
        omega
      · exact isFinite_unpack (by decide)

theorem unpack_packedInfinity (s : Sign) :
    ∃ t, UnpackedFloat.unpack format (packedInfinity format s) = .infinity t := by
  unfold UnpackedFloat.unpack packedInfinity
  dsimp only
  rw [if_pos unpackExponent_packComponents]
  exact ⟨_, if_pos unpackMantissa_packComponents⟩

/-- A number whose bits end above the range is packed as an infinity. -/
theorem pack_of_lt (s : Sign) {m : Nat} {e : Int} (hm : 0 < m) (he : 971 < e) :
    UnpackedFloat.pack format (.finite s m e hm) = packedInfinity format s := by
  unfold UnpackedFloat.pack
  have hb : (format.exponentBias) = 1023 := rfl
  have : (e + (1023 : Nat) + (52 : Nat)).toNat ≥ 2047 := by omega
  dsimp only
  rw [if_pos]
  show 2 ^ 11 ≤ _
  omega

/-- The exponent of what is packed to a finite double is in the range. -/
theorem le_of_isFinite_pack {s : Sign} {m : Nat} {e : Int} {hm : 0 < m}
    (h : (Float.Model.pack (.finite s m e hm)).isFinite = true) : e ≤ 971 := by
  by_contra hlt
  change (UnpackedFloat.unpack format (UnpackedFloat.pack format _)).isFinite = true at h
  obtain ⟨t, ht⟩ := unpack_packedInfinity s
  rw [pack_of_lt s hm (by omega), ht] at h
  exact nomatch h

theorem isNaN_eq_false_of_isFinite {u : UnpackedFloat} (h : u.isFinite = true) :
    u.isNaN = false := by
  cases u <;> first | rfl | exact absurd h (by decide)

theorem isNaN_pack {u : UnpackedFloat} (h : u.isNaN = false) :
    (Float.Model.pack u).isNaN = false := by
  have hinfinity (s : Sign) :
      (UnpackedFloat.unpack format (packedInfinity format s)).isNaN = false := by
    obtain ⟨t, ht⟩ := unpack_packedInfinity s
    rw [ht]
    rfl
  show (UnpackedFloat.unpack format (UnpackedFloat.pack format u)).isNaN = false
  cases u with
  | infinity s => exact hinfinity s
  | notANumber => exact absurd h (by decide)
  | zero s => exact isNaN_eq_false_of_isFinite (isFinite_pack (u := .zero s) trivial)
  | finite s m e hm =>
    rcases le_or_gt e 971 with he | he
    · exact isNaN_eq_false_of_isFinite (isFinite_pack (u := .finite s m e hm) he)
    · rw [pack_of_lt s hm he]
      exact hinfinity s

/-! ### Residual bits -/

/-- The mantissa with its residual bits after a shift. -/
theorem mantissa_shiftRight (em : ExtendedMantissa) (n : Nat) :
    (em >>> n).mantissa = em.mantissa / 2 ^ n := by
  show (n.repeat ExtendedMantissa.shiftRightOne em).mantissa = _
  induction n with
  | zero => exact (Nat.div_one _).symm
  | succ n ih =>
    show (n.repeat ExtendedMantissa.shiftRightOne em).mantissa / 2 = _
    rw [ih, Nat.div_div_eq_div_mul, Nat.pow_succ]

/-- The residual bits are set exactly when a shift loses something. -/
theorem bits_shiftRight (m n : Nat) :
    let em := ExtendedMantissa.ofMantissaAndAccuracy m .exact >>> n
    (em.roundBit || em.stickyBit) = (m % 2 ^ n != 0) := by
  show ((n.repeat ExtendedMantissa.shiftRightOne _).roundBit ||
    (n.repeat ExtendedMantissa.shiftRightOne _).stickyBit) = _
  induction n with
  | zero => simp [ExtendedMantissa.ofMantissaAndAccuracy, Nat.mod_one, Nat.repeat]
  | succ n ih =>
    have hm := mantissa_shiftRight (ExtendedMantissa.ofMantissaAndAccuracy m .exact) n
    change (n.repeat ExtendedMantissa.shiftRightOne _).mantissa = m / 2 ^ n at hm
    show ((n.repeat ExtendedMantissa.shiftRightOne _).mantissa % 2 != 0 ||
      ((n.repeat ExtendedMantissa.shiftRightOne _).roundBit ||
        (n.repeat ExtendedMantissa.shiftRightOne _).stickyBit)) = _
    rw [ih, hm, Nat.pow_succ, Nat.mod_mul]
    rcases Nat.mod_two_eq_zero_or_one (m / 2 ^ n) with h | h <;> simp [h]

/-- Rounding adds at most one, and only where bits are lost. -/
theorem roundedMantissa_le (em : ExtendedMantissa) :
    em.roundedMantissa ≤ em.mantissa + if em.roundBit || em.stickyBit then 1 else 0 := by
  obtain ⟨m, r, t⟩ := em
  cases r <;> cases t <;>
    simp [ExtendedMantissa.roundedMantissa, ExtendedMantissa.accuracy, Accuracy.roundToNearestEven]
  omega

/-- Rounding an exact mantissa goes at most to the next multiple above. -/
theorem roundedMantissa_mul_lt (m n : Nat) :
    (ExtendedMantissa.ofMantissaAndAccuracy m .exact >>> n).roundedMantissa * 2 ^ n <
      m + 2 ^ n := by
  have hle := roundedMantissa_le (ExtendedMantissa.ofMantissaAndAccuracy m .exact >>> n)
  rw [bits_shiftRight, mantissa_shiftRight] at hle
  have hdiv := Nat.div_add_mod m (2 ^ n)
  have hpos : 0 < 2 ^ n := Nat.two_pow_pos n
  change _ ≤ m / 2 ^ n + _ at hle
  rcases Nat.eq_zero_or_pos (m % 2 ^ n) with h | h
  · rw [h] at hle
    calc _ ≤ (m / 2 ^ n) * 2 ^ n := Nat.mul_le_mul_right _ (by simpa using hle)
      _ ≤ m := Nat.div_mul_le_self _ _
      _ < _ := by omega
  · have hr : (ExtendedMantissa.ofMantissaAndAccuracy m .exact >>> n).roundedMantissa ≤
        m / 2 ^ n + 1 := by
      refine hle.trans ?_
      split <;> omega
    calc _ ≤ (m / 2 ^ n + 1) * 2 ^ n := Nat.mul_le_mul_right _ hr
      _ = 2 ^ n * (m / 2 ^ n) + 2 ^ n := by ring
      _ < _ := by omega

/-! ### The two shifts of rounding -/

/-- How far a mantissa is shifted to the precision of doubles. -/
def shift (m : Nat) (e : Int) : Nat :=
  (format.targetExponent (totalExponent m e) - e).toNat

/-- The mantissa after the first shift, rounded. -/
def rounded (m : Nat) (e : Int) (a : Accuracy) : Nat :=
  (ExtendedMantissa.ofMantissaAndAccuracy m a >>> shift m e).roundedMantissa

/-- The exponent that is aimed at leaves fifty-three bits, or is the least one. -/
theorem targetExponent_eq (e : Int) : format.targetExponent e = max (e - 53) (-1074) := rfl

theorem shift_eq (m : Nat) (e : Int) :
    (shift m e : Int) = max 0 (max ((m.log2 : Int) + 1 + e - 53) (-1074) - e) := by
  rw [shift, targetExponent_eq, totalExponent]
  omega

/-- Rounding shifts, rounds, and shifts once more where that has added a bit. -/
theorem roundWithAccuracy_eq (s : Sign) (m : Nat) (e : Int) (a : Accuracy) :
    ∃ n : Nat, n = shift (rounded m e a) (e + shift m e) ∧
      roundWithAccuracy format s m e a =
        if h : rounded m e a / 2 ^ n = 0 then .zero s
        else .finite s (rounded m e a / 2 ^ n) (e + shift m e + n) (Nat.pos_of_ne_zero h) := by
  refine ⟨_, rfl, ?_⟩
  have hsecond := mantissa_shiftRight (ExtendedMantissa.ofMantissaAndAccuracy (rounded m e a) .exact)
    (shift (rounded m e a) (e + shift m e))
  change _ = rounded m e a / 2 ^ _ at hsecond
  have hunfold : roundWithAccuracy format s m e a =
      if h : (ExtendedMantissa.ofMantissaAndAccuracy (rounded m e a) .exact >>>
          shift (rounded m e a) (e + shift m e)).mantissa = 0 then .zero s
      else .finite s _ (e + shift m e + shift (rounded m e a) (e + shift m e))
        (Nat.pos_of_ne_zero h) := rfl
  rw [hunfold]
  revert hsecond
  generalize (ExtendedMantissa.ofMantissaAndAccuracy (rounded m e a) .exact >>>
    shift (rounded m e a) (e + shift m e)).mantissa = shifted
  rintro rfl
  rfl

/-- What is rounded within the range fits. -/
theorem fits_of_rounded {s : Sign} {m : Nat} {e : Int} {a : Accuracy}
    (he : e + shift m e ≤ 971)
    (hr : rounded m e a = 0 ∨ ((rounded m e a).log2 : Int) + (e + shift m e) ≤ 1023) :
    Fits (roundWithAccuracy format s m e a) := by
  obtain ⟨n, hn, heq⟩ := roundWithAccuracy_eq s m e a
  rw [heq]
  by_cases hne : rounded m e a / 2 ^ n = 0
  · rw [dif_pos hne]
    trivial
  · rw [dif_neg hne]
    have hr' := hr.resolve_left fun h0 => hne (by rw [h0, Nat.zero_div])
    have hs := shift_eq (rounded m e a) (e + shift m e)
    rw [← hn] at hs
    show e + shift m e + n ≤ 971
    omega

theorem mantissa_ofMantissaAndAccuracy (m : Nat) (a : Accuracy) :
    (ExtendedMantissa.ofMantissaAndAccuracy m a).mantissa = m := by
  rcases a with - | (- | - | -) <;> rfl

theorem rounded_le (m : Nat) (e : Int) (a : Accuracy) :
    rounded m e a ≤ m / 2 ^ shift m e + 1 := by
  have h := roundedMantissa_le (ExtendedMantissa.ofMantissaAndAccuracy m a >>> shift m e)
  rw [mantissa_shiftRight, mantissa_ofMantissaAndAccuracy] at h
  refine h.trans ?_
  split <;> omega

theorem log2_le_of_le_two_pow {r k : Nat} (h : r ≤ 2 ^ k) : r.log2 ≤ k := by
  rcases Nat.eq_zero_or_pos r with rfl | hr
  · simp
  · have hlt : r < 2 ^ (k + 1) := h.trans_lt (Nat.pow_lt_pow_right (by decide) (Nat.lt_succ_self k))
    exact Nat.le_of_lt_succ ((Nat.log2_lt hr.ne').2 hlt)

/-- A result is finite if the bits of the exact one end below the range. -/
theorem fits_roundWithAccuracy (s : Sign) {m : Nat} {e : Int} (a : Accuracy) (he : e ≤ 971)
    (h : (m.log2 : Int) + 1 + e ≤ 1023) : Fits (roundWithAccuracy format s m e a) := by
  have hs := shift_eq m e
  have hr := rounded_le m e a
  have hlt : m < 2 ^ (m.log2 + 1) := Nat.lt_log2_self
  refine fits_of_rounded (by omega) (Or.inr ?_)
  rcases Nat.lt_or_ge (m.log2 + 1) (shift m e) with hsmall | hlarge
  · have hzero : m / 2 ^ shift m e = 0 :=
      Nat.div_eq_of_lt (hlt.trans_le (Nat.pow_le_pow_right (by decide) hsmall.le))
    have hlog := log2_le_of_le_two_pow (show rounded m e a ≤ 2 ^ 0 by omega)
    omega
  · have hquot : m / 2 ^ shift m e < 2 ^ (m.log2 + 1 - shift m e) := by
      rw [Nat.div_lt_iff_lt_mul (Nat.two_pow_pos _), ← Nat.pow_add]
      rwa [Nat.sub_add_cancel hlarge]
    have hlog := log2_le_of_le_two_pow
      (show rounded m e a ≤ 2 ^ (m.log2 + 1 - shift m e) by omega)
    omega

/-- The exact result is at most the largest double, so it rounds to a double. -/
theorem fits_round_of_le (s : Sign) {m : Nat} {e : Int} (he : e ≤ 971)
    (h : (m : ℚ) * 2 ^ e ≤ (2 ^ 53 - 1) * 2 ^ (971 : Int)) :
    Fits (roundWithAccuracy format s m e .exact) := by
  rcases Nat.eq_zero_or_pos m with rfl | hm
  · exact fits_roundWithAccuracy s .exact he (by simp [Nat.log2_zero]; omega)
  -- From here on in whole numbers: `n` is the distance to the largest exponent.
  obtain ⟨n, rfl⟩ : ∃ n : Nat, e = 971 - n := ⟨(971 - e).toNat, by omega⟩
  have hpow : (2 : ℚ) ^ (971 : Int) = 2 ^ (971 - (n : Int)) * 2 ^ n := by
    rw [← zpow_natCast, ← zpow_add₀ (by norm_num)]
    congr 1
    omega
  have hle : m ≤ (2 ^ 53 - 1) * 2 ^ n := by
    rw [hpow, mul_comm ((2 : ℚ) ^ (971 - (n : Int))), ← mul_assoc] at h
    have := le_of_mul_le_mul_right h (by positivity)
    have h' : ((m : Nat) : ℚ) ≤ (((2 ^ 53 - 1) * 2 ^ n : Nat) : ℚ) := by
      push_cast
      norm_num at this ⊢
      exact this
    exact_mod_cast h'
  have hlog : m.log2 ≤ 52 + n := by
    have : m < 2 ^ (53 + n) := by
      calc m ≤ (2 ^ 53 - 1) * 2 ^ n := hle
        _ < 2 ^ 53 * 2 ^ n := by gcongr; norm_num
        _ = 2 ^ (53 + n) := by rw [Nat.pow_add]
    have := (Nat.log2_lt hm.ne').2 this
    omega
  rcases Nat.lt_or_ge m.log2 (52 + n) with hlt | hge
  · exact fits_roundWithAccuracy s .exact he (by omega)
  -- The first bit is the highest there is, so rounding must not carry into a new one.
  · have hs := shift_eq m (971 - n)
    have hsn : shift m (971 - n) = n := by omega
    have hround := roundedMantissa_mul_lt m n
    have hr : rounded m (971 - n) .exact < 2 ^ 53 := by
      have : rounded m (971 - n) .exact * 2 ^ n < 2 ^ 53 * 2 ^ n := by
        rw [rounded, hsn]
        calc _ < m + 2 ^ n := hround
          _ ≤ (2 ^ 53 - 1) * 2 ^ n + 2 ^ n := by omega
          _ = 2 ^ 53 * 2 ^ n := by ring_nf
      exact lt_of_mul_lt_mul_right this (Nat.zero_le _)
    refine fits_of_rounded (by omega) ?_
    rcases Nat.eq_zero_or_pos (rounded m (971 - n) .exact) with h0 | hpos
    · exact Or.inl h0
    · have := (Nat.log2_lt hpos.ne').2 hr
      omega

/-! ### How much rounding adds -/

/-- The magnitude of a finite number. -/
def magnitude : UnpackedFloat → ℚ
  | .finite _ m e _ => m * 2 ^ e
  | _ => 0

/-- What is rounded is at most the rounded digits at their place. -/
theorem magnitude_round_le_rounded (s : Sign) (m : Nat) (e : Int) (a : Accuracy) :
    magnitude (roundWithAccuracy format s m e a) ≤ rounded m e a * 2 ^ (e + shift m e) := by
  obtain ⟨n, -, heq⟩ := roundWithAccuracy_eq s m e a
  rw [heq]
  by_cases hne : rounded m e a / 2 ^ n = 0
  · rw [dif_pos hne]
    exact mul_nonneg (Nat.cast_nonneg _) (by positivity)
  · rw [dif_neg hne]
    show ((rounded m e a / 2 ^ n : Nat) : ℚ) * 2 ^ (e + shift m e + n) ≤ _
    rw [zpow_add₀ (by norm_num) (e + shift m e), mul_comm ((2 : ℚ) ^ (e + shift m e)), ← mul_assoc]
    gcongr
    have hdiv := Nat.div_mul_le_self (rounded m e a) (2 ^ n)
    rw [zpow_natCast]
    exact_mod_cast hdiv

/-- Rounding an exact number of the normal range adds at most one part in `2 ^ 52`. -/
theorem magnitude_round_le (s : Sign) {m : Nat} {e : Int} (hm : 0 < m)
    (hnormal : -1022 ≤ (m.log2 : Int) + e) :
    magnitude (roundWithAccuracy format s m e .exact) ≤ m * 2 ^ e * (1 + 1 / 2 ^ 52) := by
  refine (magnitude_round_le_rounded s m e .exact).trans ?_
  have hs := shift_eq m e
  have hround := roundedMantissa_mul_lt m (shift m e)
  change rounded m e .exact * _ < _ at hround
  have hself : 2 ^ m.log2 ≤ m := Nat.log2_self_le hm.ne'
  have hadd : rounded m e .exact * 2 ^ shift m e * 2 ^ 52 ≤ m * 2 ^ 52 + m := by
    -- Without a shift nothing is rounded; with one, 53 bits are kept.
    rcases Nat.eq_zero_or_pos (shift m e) with h0 | hpos
    · rw [h0] at hround ⊢
      omega
    · have hbits : shift m e + 52 = m.log2 := by omega
      have hstep : 2 ^ shift m e * 2 ^ 52 ≤ m := by
        rw [← Nat.pow_add, hbits]
        exact hself
      nlinarith
  rw [zpow_add₀ (by norm_num), zpow_natCast, mul_comm ((2 : ℚ) ^ e), ← mul_assoc]
  have hadd' : (rounded m e .exact : ℚ) * 2 ^ shift m e * 2 ^ 52 ≤ m * 2 ^ 52 + m := by
    exact_mod_cast hadd
  have : (rounded m e .exact : ℚ) * 2 ^ shift m e ≤ m * (1 + 1 / 2 ^ 52) := by
    rw [mul_add, mul_one, mul_one_div, ← sub_le_iff_le_add', le_div_iff₀ (by positivity)]
    linarith
  calc _ ≤ (m * (1 + 1 / 2 ^ 52)) * (2 : ℚ) ^ e := by gcongr
    _ = _ := by ring

end Workplane.Double
