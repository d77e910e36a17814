import Workplane.Decimal.Numeral
import Workplane.Proofs.Decimal.Rounding

/-!
# Doubles that stay finite

The operations that give a numeral its value, on the parts of a double.  A whole number, and a
power of ten up to `10 ^ 308`, becomes a normal double at most one part in `2 ^ 52` above it
(`Double.Approximates`).  The value of a numeral is therefore finite
(`Numeral.isFinite_of_toFloat?`), and there is one if the digits and the power are not too large
(`Numeral.exists_scale`).
-/

namespace Workplane.Double

open Float.Model Float.Model.UnpackedFloat

/-! ### Unpacking -/

/-- The parts of a double. -/
def parts (x : Float) : UnpackedFloat :=
  x.toModel.unpack

theorem isFinite_iff_parts (x : Float) : x.isFinite = (parts x).isFinite := rfl

theorem unpackSign_packComponents (s : Sign) (exponent : BitVec 11) (mantissa : BitVec 52) :
    @unpackSign format (packComponents format s exponent mantissa) = s.toBitVec := by
  ext i hi
  obtain rfl : i = 0 := by omega
  have h : (packComponents format s exponent mantissa).getLsbD 63 = s.toBitVec[0] := by
    show (s.toBitVec ++ exponent ++ mantissa).getLsbD 63 = s.toBitVec[0]
    rw [BitVec.getLsbD_append, BitVec.getLsbD_append]
    rfl
  show (BitVec.cast _ (BitVec.extractLsb 63 63 (packComponents format s exponent mantissa)))[0] = _
  simpa using h

/-- The leading bit of a normal number. -/
theorem toNat_one_append (v : BitVec 52) : (1#1 ++ v).toNat = 2 ^ 52 + v.toNat := by
  rw [BitVec.toNat_append, ← Nat.shiftLeft_add_eq_or_of_lt v.isLt]
  rfl

/-- The exponent field of a finite number is not full. -/
theorem unpackExponent_ne_of_isFinite {b : BitVec format.numBits}
    (h : (UnpackedFloat.unpack format b).isFinite = true) : @unpackExponent format b ≠ -1#_ := by
  intro hexp
  unfold UnpackedFloat.unpack at h
  dsimp only at h
  rw [if_pos hexp] at h
  by_cases hmantissa : @unpackMantissa format b = 0#_
  · rw [if_pos hmantissa] at h
    exact nomatch h
  · rw [if_neg hmantissa] at h
    exact nomatch h

/-- A double as it is unpacked: a normal number, or one with the least exponent. -/
structure IsCanonical (m : Nat) (e : Int) : Prop where
  lt : m < 2 ^ 53
  ge : -1074 ≤ e
  le : e ≤ 971
  normal : e = -1074 ∨ 2 ^ 52 ≤ m

/-- A finite double is a zero, or is unpacked to a canonical form. -/
theorem parts_of_isFinite {x : Float} (h : x.isFinite = true) :
    (∃ s, parts x = .zero s) ∨ ∃ s m e hm, parts x = .finite s m e hm ∧ IsCanonical m e := by
  have hfin : (UnpackedFloat.unpack format x.toModel.toBits.toBitVec).isFinite = true := h
  show (∃ s, UnpackedFloat.unpack format x.toModel.toBits.toBitVec = .zero s) ∨
    ∃ s m e hm, UnpackedFloat.unpack format x.toModel.toBits.toBitVec = .finite s m e hm ∧ _
  generalize x.toModel.toBits.toBitVec = b at hfin ⊢
  have hb : (format.exponentBias : Int) = 1023 := rfl
  have hw : (format.mantissaBitsWithoutImplicit : Int) = 52 := rfl
  have hlt : (@unpackExponent format b).toNat < 2048 :=
    (@unpackExponent format b).isLt
  have hexp := unpackExponent_ne_of_isFinite hfin
  have hne : (@unpackExponent format b).toNat ≠ 2047 := fun heq =>
    hexp (BitVec.eq_of_toNat_eq (by rw [heq]; rfl))
  have hm : (@unpackMantissa format b).toNat < 2 ^ 52 := (@unpackMantissa format b).isLt
  unfold UnpackedFloat.unpack
  dsimp only
  rw [if_neg hexp]
  -- The exponent field is zero for zeros and subnormal numbers.
  by_cases h0 : @unpackExponent format b = 0#_
  · rw [if_pos h0]
    have h0' : (@unpackExponent format b).toNat = 0 := by rw [h0]; rfl
    by_cases hm0 : @unpackMantissa format b = 0#_
    · rw [dif_pos hm0]
      exact Or.inl ⟨_, rfl⟩
    · rw [dif_neg hm0]
      have hpos := Nat.pos_of_ne_zero fun h => hm0 (BitVec.eq_of_toNat_eq h)
      exact Or.inr ⟨_, _, _, hpos, rfl, by omega, by omega, by omega, Or.inl (by omega)⟩
  · rw [if_neg h0]
    have h0' : (@unpackExponent format b).toNat ≠ 0 := fun heq =>
      h0 (BitVec.eq_of_toNat_eq heq)
    refine Or.inr ⟨_, _, _, by rw [toNat_one_append]; omega, rfl, ?_, by omega, by omega, ?_⟩
    · exact (1#1 ++ @unpackMantissa format b).isLt
    · rw [toNat_one_append]
      omega

/-- A normal number is unpacked as it was packed. -/
theorem unpack_pack_normal (s : Sign) {m : Nat} {e : Int} (hm : 0 < m) (hlog : m.log2 = 52)
    (hlow : -1074 ≤ e) (hhigh : e ≤ 971) :
    UnpackedFloat.unpack format (UnpackedFloat.pack format (.finite s m e hm)) =
      .finite s m e hm := by
  have hb : format.exponentBias = 1023 := rfl
  have hlow' : 2 ^ 52 ≤ m := hlog ▸ Nat.log2_self_le hm.ne'
  have hhigh' : m < 2 ^ 53 := (Nat.log2_lt hm.ne').1 (by omega)
  -- The first of the 53 bits is implicit: it is left out here, and put back below.
  have hpack : UnpackedFloat.pack format (.finite s m e hm) =
      packComponents format s (BitVec.ofNat 11 (e + 1075).toNat) (BitVec.ofNat 52 m) := by
    unfold UnpackedFloat.pack
    simp only
    rw [if_neg (show ¬ 2 ^ 11 ≤ (e + format.exponentBias + (52 : Nat)).toNat + 1 by omega),
      if_pos (show m.log2 + 1 = format.mantissaBits by rw [hlog]; rfl)]
    have : e + format.exponentBias + (52 : Nat) = e + 1075 := by omega
    show packComponents format s (BitVec.ofNat 11 (e + format.exponentBias + (52 : Nat)).toNat) _ =
      _
    rw [this]
  have hexp : (BitVec.ofNat 11 (e + 1075).toNat).toNat = (e + 1075).toNat := by
    rw [BitVec.toNat_ofNat, Nat.mod_eq_of_lt (by omega)]
  rw [hpack]
  unfold UnpackedFloat.unpack
  dsimp only
  have hne : ∀ k : Nat, k < 2048 → (e + 1075).toNat ≠ k →
      BitVec.ofNat 11 (e + 1075).toNat ≠ BitVec.ofNat 11 k := by
    intro k hk hne heq
    have := congrArg BitVec.toNat heq
    rw [hexp, BitVec.toNat_ofNat, Nat.mod_eq_of_lt (by omega)] at this
    exact hne this
  rw [if_neg (unpackExponent_packComponents.trans_ne (hne 2047 (by omega) (by omega))),
    if_neg (unpackExponent_packComponents.trans_ne (hne 0 (by omega) (by omega)))]
  congr 1
  · rw [unpackSign_packComponents]
    cases s <;> rfl
  · rw [unpackMantissa_packComponents, toNat_one_append, BitVec.toNat_ofNat]
    omega
  · rw [unpackExponent_packComponents, hexp, hb]
    omega

/-- A number with the least exponent is unpacked as it was packed. -/
theorem unpack_pack_subnormal (s : Sign) {m : Nat} (hm : 0 < m) (hlt : m < 2 ^ 52) :
    UnpackedFloat.unpack format (UnpackedFloat.pack format (.finite s m (-1074) hm)) =
      .finite s m (-1074) hm := by
  have hlog : m.log2 < 52 := (Nat.log2_lt hm.ne').2 hlt
  -- A shorter significand keeps all its bits, with the exponent field zero.
  have hpack : UnpackedFloat.pack format (.finite s m (-1074) hm) =
      packComponents format s 0#11 (BitVec.ofNat 52 m) := by
    unfold UnpackedFloat.pack
    simp only
    have hbits : format.mantissaBits = 53 := rfl
    rw [if_neg (by decide), if_neg (show ¬ m.log2 + 1 = format.mantissaBits by omega)]
  have htoNat : (BitVec.ofNat 52 m).toNat = m := by
    rw [BitVec.toNat_ofNat, Nat.mod_eq_of_lt hlt]
  have hmantissa : BitVec.ofNat 52 m ≠ 0#_ := by
    intro heq
    rw [heq] at htoNat
    exact hm.ne htoNat
  rw [hpack]
  unfold UnpackedFloat.unpack
  dsimp only
  rw [if_neg (unpackExponent_packComponents.trans_ne (by decide)),
    if_pos unpackExponent_packComponents,
    dif_neg (unpackMantissa_packComponents.trans_ne hmantissa)]
  congr 1
  · rw [unpackSign_packComponents]
    cases s <;> rfl
  · rw [unpackMantissa_packComponents]
    exact htoNat
  · rw [unpackExponent_packComponents]
    rfl

/-- A canonical form is the one that its double is unpacked to. -/
theorem IsCanonical.parts_pack {m : Nat} {e : Int} (h : IsCanonical m e) (s : Sign) (hm : 0 < m) :
    parts (.ofModel (Float.Model.pack (.finite s m e hm))) = .finite s m e hm := by
  rcases Nat.lt_or_ge m (2 ^ 52) with hlt | hge
  · obtain rfl := h.normal.resolve_right (by omega)
    exact unpack_pack_subnormal s hm hlt
  · have hlog : m.log2 = 52 := (Nat.log2_eq_iff hm.ne').2 ⟨hge, h.lt⟩
    exact unpack_pack_normal s hm hlog h.ge h.le

/-! ### Rounding to a normal number -/

/-- Rounding never goes below the digits that are kept. -/
theorem le_rounded (m : Nat) (e : Int) (a : Accuracy) : m / 2 ^ shift m e ≤ rounded m e a := by
  have h := mantissa_shiftRight (ExtendedMantissa.ofMantissaAndAccuracy m a) (shift m e)
  rw [mantissa_ofMantissaAndAccuracy] at h
  rw [← h, rounded]
  generalize ExtendedMantissa.ofMantissaAndAccuracy m a >>> shift m e = em
  obtain ⟨m, r, t⟩ := em
  cases r <;> cases t <;>
    simp [ExtendedMantissa.roundedMantissa, ExtendedMantissa.accuracy, Accuracy.roundToNearestEven]

/-- The double `m * 2 ^ e` has 53 bits and is at most one part in `2 ^ 52` above `q`. -/
structure IsNear (m : Nat) (e : Int) (q : Nat) : Prop where
  log2_eq : m.log2 = 52
  log2_le : (q.log2 : Int) ≤ 52 + e
  le : (m : ℚ) * 2 ^ e ≤ q * (1 + 1 / 2 ^ 52)

theorem log2_mul_two_pow {q : Nat} (hq : 0 < q) (j : Nat) : (q * 2 ^ j).log2 = q.log2 + j := by
  rw [Nat.log2_eq_iff (by positivity), Nat.pow_add, Nat.pow_succ, Nat.pow_add, Nat.mul_right_comm]
  exact ⟨Nat.mul_le_mul_right _ (Nat.log2_self_le hq.ne'),
    Nat.mul_lt_mul_of_pos_right Nat.lt_log2_self (Nat.two_pow_pos j)⟩

theorem log2_div_two_pow {q j : Nat} (hq : 0 < q) (hj : j ≤ q.log2) :
    0 < q / 2 ^ j ∧ (q / 2 ^ j).log2 = q.log2 - j := by
  have hlow : 2 ^ (q.log2 - j) ≤ q / 2 ^ j := by
    rw [Nat.le_div_iff_mul_le (Nat.two_pow_pos j), ← Nat.pow_add, Nat.sub_add_cancel hj]
    exact Nat.log2_self_le hq.ne'
  have hpos : 0 < q / 2 ^ j := (Nat.two_pow_pos _).trans_le hlow
  refine ⟨hpos, (Nat.log2_eq_iff hpos.ne').2 ⟨hlow, ?_⟩⟩
  rw [Nat.div_lt_iff_lt_mul (Nat.two_pow_pos j), ← Nat.pow_add,
    show q.log2 - j + 1 + j = q.log2 + 1 by omega]
  exact Nat.lt_log2_self

theorem cast_mul_two_pow (q j : Nat) : ((q * 2 ^ j : Nat) : ℚ) * 2 ^ (-(j : Int)) = q := by
  rw [zpow_neg, zpow_natCast]
  push_cast
  rw [mul_assoc, mul_inv_cancel₀ (by positivity), mul_one]

/-- A whole number with enough bits is rounded to a normal number near it. -/
theorem round_isNear {q j : Nat} (hq : 0 < q) (hj : 52 ≤ q.log2 + j) :
    ∃ m e hm,
      roundWithAccuracy format .positive (q * 2 ^ j) (-j) .exact = .finite .positive m e hm ∧
      IsNear m e q := by
  have hM : 0 < q * 2 ^ j := by positivity
  have hlog := log2_mul_two_pow hq j
  have hs := shift_eq (q * 2 ^ j) (-j)
  rw [hlog] at hs
  obtain ⟨hquot, hquotLog⟩ := log2_div_two_pow hM
    (show shift (q * 2 ^ j) (-j) ≤ (q * 2 ^ j).log2 by omega)
  obtain ⟨hlow, hhigh⟩ := (Nat.log2_eq_iff (k := 52) hquot.ne').1 (by omega)
  have hle := rounded_le (q * 2 ^ j) (-j) .exact
  have hge := le_rounded (q * 2 ^ j) (-j) .exact
  have hmag := magnitude_round_le .positive hM (e := -j) (by omega)
  rw [cast_mul_two_pow] at hmag
  obtain ⟨n, hn, heq⟩ := roundWithAccuracy_eq .positive (q * 2 ^ j) (-j) .exact
  rw [heq] at hmag ⊢
  have hsecond := shift_eq (rounded (q * 2 ^ j) (-j) .exact) (-j + shift (q * 2 ^ j) (-j))
  rw [← hn] at hsecond
  -- Rounding up may add a bit, which the second shift takes away.
  have hresult : (rounded (q * 2 ^ j) (-j) .exact / 2 ^ n).log2 = 52 := by
    rcases Nat.lt_or_ge (rounded (q * 2 ^ j) (-j) .exact) (2 ^ 53) with hlt | hge'
    · have hr : (rounded (q * 2 ^ j) (-j) .exact).log2 = 52 :=
        (Nat.log2_eq_iff (by omega)).2 ⟨by omega, hlt⟩
      obtain rfl : n = 0 := by omega
      rw [Nat.pow_zero, Nat.div_one, hr]
    · have hr : rounded (q * 2 ^ j) (-j) .exact = 2 ^ 53 := by omega
      rw [hr, Nat.log2_two_pow] at hsecond
      obtain rfl : n = 1 := by omega
      rw [hr]
      rfl
  have hne : rounded (q * 2 ^ j) (-j) .exact / 2 ^ n ≠ 0 := by
    intro h0
    rw [h0] at hresult
    exact absurd hresult (by decide)
  rw [dif_neg hne] at hmag ⊢
  exact ⟨_, _, _, rfl, hresult, by omega, hmag⟩

/-! ### Doubles near whole numbers -/

/-- The double is positive and normal, and at most one part in `2 ^ 52` above `q`. -/
def Approximates (x : Float) (q : Nat) : Prop :=
  ∃ m e hm, parts x = .finite .positive m e hm ∧ IsNear m e q

/-- What is near a number within the range is in canonical form. -/
theorem IsNear.isCanonical {m q : Nat} {e : Int} (h : IsNear m e q) (he : e ≤ 971) :
    IsCanonical m e := by
  have hlog := h.log2_eq
  have hle := h.log2_le
  have hm : m ≠ 0 := fun h0 => by
    rw [h0] at hlog
    exact absurd hlog (by decide)
  obtain ⟨hge, hlt⟩ := (Nat.log2_eq_iff hm).1 hlog
  exact ⟨hlt, by omega, he, Or.inr hge⟩

/-- The largest double. -/
def largest : Nat := (2 ^ 53 - 1) * 2 ^ 971

theorem cast_largest : (largest : ℚ) = (2 ^ 53 - 1) * 2 ^ (971 : Int) := by
  rw [largest, Nat.cast_mul, Nat.cast_pow, zpow_ofNat]
  congr 1
  norm_num

attribute [irreducible] largest

theorem cast_largest_lt : (largest : ℚ) < 2 ^ (1024 : Int) := by
  rw [cast_largest, show (1024 : Int) = 53 + 971 by rfl, zpow_add₀ (by norm_num)]
  gcongr
  norm_num

theorem two_pow_le_largest : 2 ^ 64 ≤ largest := by
  decide +kernel

/-- A number that is rounded within the range gives a double near it. -/
theorem approximates_of_round {q j : Nat} (hq : 0 < q) (hj : 52 ≤ q.log2 + j) (hle : q ≤ largest) :
    Approximates (.ofModel (Float.Model.pack
      (roundWithAccuracy format .positive (q * 2 ^ j) (-j) .exact))) q := by
  obtain ⟨m, e, hm, heq, hnear⟩ := round_isNear hq hj
  have hfits : Fits (roundWithAccuracy format .positive (q * 2 ^ j) (-j) .exact) := by
    refine fits_round_of_le .positive (by omega) ?_
    rw [cast_mul_two_pow]
    calc (q : ℚ) ≤ largest := by exact_mod_cast hle
      _ = _ := cast_largest
  rw [heq] at hfits ⊢
  exact ⟨m, e, hm, (hnear.isCanonical hfits).parts_pack _ hm, hnear⟩

/-- An unsigned integer of sixty-four bits becomes a double near it. -/
theorem approximates_toFloat {k : UInt64} (hk : 0 < k.toNat) : Approximates k.toFloat k.toNat := by
  have hlt : k.toNat < 2 ^ 64 := k.toNat_lt
  have hlog : k.toNat.log2 < 64 := (Nat.log2_lt hk.ne').2 hlt
  have hround : UnpackedFloat.ofUInt64 format k =
      roundWithAccuracy format .positive (k.toNat * 2 ^ (52 - k.toNat.log2))
        (-(52 - k.toNat.log2 : Nat)) .exact := by
    show UnpackedFloat.normalize format (k.toNat : Int) 0 .positive = _
    have hgt : compare (k.toNat : Int) 0 = .gt := by
      rw [compare_gt_iff_gt]
      omega
    rw [UnpackedFloat.normalize, hgt]
    have hshift : (0 - format.targetExponent (totalExponent k.toNat 0)).toNat =
        52 - k.toNat.log2 := by
      rw [targetExponent_eq, totalExponent]
      omega
    show roundWithAccuracy format .positive
      (k.toNat <<< (0 - format.targetExponent (totalExponent k.toNat 0)).toNat)
      (0 - ((0 - format.targetExponent (totalExponent k.toNat 0)).toNat : Nat)) .exact = _
    rw [hshift, Nat.shiftLeft_eq, Int.zero_sub]
  show Approximates (.ofModel (Float.Model.pack (UnpackedFloat.ofUInt64 format k))) _
  rw [hround]
  refine approximates_of_round hk (by omega) (hlt.le.trans two_pow_le_largest)

/-- A literal becomes a double near the number that it writes. -/
theorem approximates_ofScientific {m n : Nat} (hm : 0 < m) (hn : n ≤ 2 ^ 11)
    (hle : m * 10 ^ n ≤ largest) :
    Approximates (.ofModel (Float.Model.ofScientific m n)) (m * 10 ^ n) := by
  have hround : UnpackedFloat.ofScientific format m n =
      roundWithAccuracy format .positive (m * 10 ^ n * 2 ^ 53) (-(53 : Nat)) .exact := by
    unfold UnpackedFloat.ofScientific
    rw [dif_neg hm.ne', if_neg (show ¬ (n : Int) > 2 ^ 11 by omega),
      if_neg (show ¬ (n : Int) < -(2 ^ 11 + m.log2) by omega), if_pos (Int.natCast_nonneg n)]
    show roundWithAccuracy format .positive (m <<< 53 * 10 ^ n) (-53 + 0) .exact = _
    rw [Nat.shiftLeft_eq, Nat.mul_right_comm]
    rfl
  show Approximates (.ofModel (Float.Model.pack (UnpackedFloat.ofScientific format m n))) _
  rw [hround]
  exact approximates_of_round (by positivity) (by omega) hle

/-! ### Powers of ten -/

/-- The double is the whole number, with its leading bit. -/
def isExactly (x : Float) (q : Nat) : Bool :=
  match parts x with
  | .finite .positive m e _ =>
    m.log2 == 52 && decide (-52 ≤ e) && m * 2 ^ (e + 52).toNat == q * 2 ^ 52
  | _ => false

theorem approximates_of_isExactly {x : Float} {q : Nat} (hq : 0 < q) (h : isExactly x q = true) :
    Approximates x q := by
  unfold isExactly at h
  split at h
  · rename_i m e hm hparts
    simp only [Bool.and_eq_true, beq_iff_eq, decide_eq_true_eq] at h
    obtain ⟨⟨hlog, he⟩, heq⟩ := h
    obtain ⟨n, rfl⟩ : ∃ n : Nat, e = n - 52 := ⟨(e + 52).toNat, by omega⟩
    rw [show ((n : Int) - 52 + 52).toNat = n by omega] at heq
    have hlogs := congrArg Nat.log2 heq
    rw [log2_mul_two_pow hm, log2_mul_two_pow hq, hlog] at hlogs
    refine ⟨m, _, hm, hparts, hlog, by omega, ?_⟩
    have hval : (m : ℚ) * 2 ^ ((n : Int) - 52) = q := by
      rw [zpow_sub₀ (by norm_num), zpow_natCast, ← mul_div_assoc, div_eq_iff (by positivity)]
      exact_mod_cast heq
    rw [hval]
    exact le_mul_of_one_le_right (Nat.cast_nonneg q) (by norm_num)
  · exact absurd h (by decide)

/-- The powers of ten that fit into the digits of a double are exact. -/
theorem isExactly_powerOfTen : ∀ n < 23, isExactly (Numeral.powerOfTen n) (10 ^ n) = true := by
  decide +kernel

theorem ten_pow_le_largest {n : Nat} (hn : n ≤ 308) : 10 ^ n ≤ largest :=
  (Nat.pow_le_pow_right (by decide) hn).trans (by decide +kernel)

/-- Every power of ten of the table is near the one that it stands for. -/
theorem approximates_powerOfTen {n : Nat} (hn : n ≤ 308) :
    Approximates (Numeral.powerOfTen n) (10 ^ n) := by
  rcases Nat.lt_or_ge n 23 with hsmall | hlarge
  · exact approximates_of_isExactly (by positivity) (isExactly_powerOfTen n hsmall)
  · have hslow : Numeral.powerOfTen n = .ofModel (Float.Model.ofScientific 1 n) := by
      rw [Numeral.powerOfTen, Float.ofScientific, dif_neg (by omega)]
      rfl
    rw [hslow, ← Nat.one_mul (10 ^ n)]
    exact approximates_ofScientific (by decide) (by omega) (by
      rw [Nat.one_mul]
      exact ten_pow_le_largest hn)

/-! ### Operations that stay finite -/

theorem Approximates.isFinite {x : Float} {q : Nat} (h : Approximates x q) : x.isFinite = true := by
  obtain ⟨m, e, hm, heq, -⟩ := h
  rw [isFinite_iff_parts, heq]
  rfl

/-- A product is finite if the product of what the factors stand for is in the range with room for
two roundings. -/
theorem isFinite_mul {x y : Float} {a b : Nat} (hx : Approximates x a) (hy : Approximates y b)
    (h : (a * b : ℚ) * (1 + 1 / 2 ^ 52) ^ 2 ≤ largest) : (x * y).isFinite = true := by
  obtain ⟨m, e, hm, hmeq, hm2⟩ := hx
  obtain ⟨n, f, hn, hneq, hn2⟩ := hy
  have hmul : x * y = .ofModel (Float.Model.pack
      (roundWithAccuracy format (.positive * .positive) (m * n) (e + f) .exact)) := by
    show Float.ofModel (Float.Model.pack (UnpackedFloat.mul format (parts x) (parts y))) = _
    rw [hmeq, hneq]
    rfl
  rw [hmul]
  have hval : ((m * n : Nat) : ℚ) * 2 ^ (e + f) ≤ largest :=
    calc ((m * n : Nat) : ℚ) * 2 ^ (e + f) = (m * 2 ^ e) * (n * 2 ^ f) := by
          rw [zpow_add₀ (by norm_num), Nat.cast_mul]
          ring
      _ ≤ (a * (1 + 1 / 2 ^ 52)) * (b * (1 + 1 / 2 ^ 52)) :=
          mul_le_mul hm2.le hn2.le (by positivity) (by positivity)
      _ = (a * b) * (1 + 1 / 2 ^ 52) ^ 2 := by ring
      _ ≤ largest := h
  refine isFinite_pack (fits_round_of_le _ ?_ (cast_largest ▸ hval))
  -- Both factors have 53 bits, so the exponents cannot be large.
  have hbits : 2 ^ 52 * 2 ^ 52 ≤ m * n := by
    have := Nat.mul_le_mul (Nat.log2_self_le hm.ne') (Nat.log2_self_le hn.ne')
    rwa [hm2.log2_eq, hn2.log2_eq] at this
  have hpow : (2 : ℚ) ^ (104 + (e + f)) < 2 ^ (1024 : Int) :=
    calc (2 : ℚ) ^ (104 + (e + f)) = (2 ^ 52 * 2 ^ 52 : Nat) * 2 ^ (e + f) := by
          rw [zpow_add₀ (by norm_num)]
          norm_num
      _ ≤ (m * n : Nat) * 2 ^ (e + f) := by gcongr
      _ ≤ largest := hval
      _ < 2 ^ (1024 : Int) := cast_largest_lt
  have := (zpow_lt_zpow_iff_right₀ (by norm_num)).1 hpow
  omega

/-- Rounding a number never gives NaN. -/
theorem isNaN_round (s : Sign) (m : Nat) (e : Int) (a : Accuracy) :
    (roundWithAccuracy format s m e a).isNaN = false := by
  obtain ⟨n, -, heq⟩ := roundWithAccuracy_eq s m e a
  rw [heq]
  by_cases hzero : rounded m e a / 2 ^ n = 0
  · rw [dif_pos hzero]
    rfl
  · rw [dif_neg hzero]
    rfl

theorem isInf_of_isFinite {x : Float} (h : x.isFinite = true) : x.isInf = false := by
  show (parts x).isInf = false
  obtain ⟨s, heq⟩ | ⟨s, m, e, hm, heq, -⟩ := parts_of_isFinite h <;> rw [heq] <;> rfl

theorem isNaN_of_isFinite {x : Float} (h : x.isFinite = true) : x.isNaN = false :=
  isNaN_eq_false_of_isFinite h

theorem isFinite_of_isInf_of_isNaN {x : Float} (hinf : x.isInf = false) (hnan : x.isNaN = false) :
    x.isFinite = true := by
  change (parts x).isInf = false at hinf
  change (parts x).isNaN = false at hnan
  rw [isFinite_iff_parts]
  cases hp : parts x with
  | notANumber => exact absurd hnan (by rw [hp]; decide)
  | infinity s => exact absurd hinf (by rw [hp]; cases s <;> decide)
  | zero s => rfl
  | finite s m e hm => rfl

/-- A product of finite doubles is finite or infinite. -/
theorem isFinite_mul_of_isInf {x y : Float} (hx : x.isFinite = true) (hy : y.isFinite = true)
    (h : (x * y).isInf = false) : (x * y).isFinite = true := by
  have hnan : (x * y).isNaN = false := by
    show (Float.ofModel (Float.Model.pack (UnpackedFloat.mul format (parts x) (parts y)))).isNaN = _
    refine isNaN_pack ?_
    obtain ⟨s, hpx⟩ | ⟨s, m, e, hm, hpx, -⟩ := parts_of_isFinite hx <;>
    obtain ⟨t, hpy⟩ | ⟨t, n, f, hn, hpy, -⟩ := parts_of_isFinite hy <;> rw [hpx, hpy]
    · rfl
    · rfl
    · rfl
    · exact isNaN_round _ _ _ _
  exact isFinite_of_isInf_of_isNaN h hnan

/-- A factor of a finite product is finite. -/
theorem isFinite_of_mul {x y : Float} (h : (x * y).isFinite = true) : x.isFinite = true := by
  have hmul : (Float.ofModel (Float.Model.pack
      (UnpackedFloat.mul format (parts x) (parts y)))).isFinite = true := h
  have hnan : (Float.ofModel (Float.Model.pack .notANumber)).isFinite = false := by decide
  have hinf (s : Sign) : (Float.ofModel (Float.Model.pack (.infinity s))).isFinite = false := by
    cases s <;> decide
  rw [isFinite_iff_parts]
  cases hx : parts x with
  | zero s => rfl
  | finite s m e hm => rfl
  | notANumber =>
    rw [hx, show UnpackedFloat.mul format .notANumber (parts y) = .notANumber from rfl, hnan] at hmul
    exact absurd hmul Bool.false_ne_true
  | infinity s =>
    rw [hx] at hmul
    have hmul_infinity (u : UnpackedFloat) : UnpackedFloat.mul format (.infinity s) u = .notANumber ∨
        ∃ t, UnpackedFloat.mul format (.infinity s) u = .infinity t := by
      cases u with
      | notANumber => exact Or.inl rfl
      | infinity t => exact Or.inr ⟨_, rfl⟩
      | zero t => exact Or.inl rfl
      | finite t m e hm => exact Or.inr ⟨_, rfl⟩
    obtain heq | ⟨t, heq⟩ := hmul_infinity (parts y)
    · rw [heq, hnan] at hmul
      exact absurd hmul Bool.false_ne_true
    · rw [heq, hinf t] at hmul
      exact absurd hmul Bool.false_ne_true

/-- A finite double times zero is a zero. -/
theorem isFinite_mul_of_parts_eq_zero {x y : Float} {s : Sign} (hx : x.isFinite = true)
    (hy : parts y = .zero s) : (x * y).isFinite = true := by
  show (Float.ofModel (Float.Model.pack (UnpackedFloat.mul format (parts x) (parts y)))).isFinite =
    true
  refine isFinite_pack ?_
  obtain ⟨t, hpx⟩ | ⟨t, m, e, hm, hpx, -⟩ := parts_of_isFinite hx
  · rw [hpx, hy]
    trivial
  · rw [hpx, hy]
    trivial

/-- Zero times a finite double is a zero. -/
theorem isFinite_zero_mul {x y : Float} {s : Sign} (hx : parts x = .zero s)
    (hy : y.isFinite = true) : (x * y).isFinite = true := by
  show (Float.ofModel (Float.Model.pack (UnpackedFloat.mul format (parts x) (parts y)))).isFinite =
    true
  refine isFinite_pack ?_
  obtain ⟨t, hpy⟩ | ⟨t, m, e, hm, hpy, -⟩ := parts_of_isFinite hy
  · rw [hx, hpy]
    trivial
  · rw [hx, hpy]
    trivial

theorem isFinite_neg {x : Float} (h : x.isFinite = true) : (-x).isFinite = true := by
  show (Float.ofModel (Float.Model.pack (UnpackedFloat.neg (parts x)))).isFinite = true
  refine isFinite_pack ?_
  obtain ⟨s, heq⟩ | ⟨s, m, e, hm, heq, hcanonical⟩ := parts_of_isFinite h
  · rw [heq]
    trivial
  · rw [heq]
    exact hcanonical.le

/-- A quotient has at most as many bits as the dividend has more than the divisor. -/
theorem log2_div_le (m n : Nat) : (m / n).log2 ≤ m.log2 - n.log2 := by
  rcases Nat.eq_zero_or_pos (m / n) with h0 | hpos
  · rw [h0, Nat.log2_zero]
    exact Nat.zero_le _
  · have hn : 0 < n := Nat.pos_of_ne_zero fun h => by simp [h] at hpos
    have hm : m ≠ 0 := fun h => by simp [h] at hpos
    have hle : 2 ^ n.log2 * 2 ^ (m / n).log2 ≤ m :=
      calc 2 ^ n.log2 * 2 ^ (m / n).log2 ≤ n * (m / n) :=
            Nat.mul_le_mul (Nat.log2_self_le hn.ne') (Nat.log2_self_le hpos.ne')
        _ ≤ m := Nat.mul_div_le m n
    rw [← Nat.pow_add, ← Nat.le_log2 hm] at hle
    omega

/-- A finite double divided by one of at least four is finite. -/
theorem isFinite_div {x y : Float} {b : Nat} (hx : x.isFinite = true) (hy : Approximates y b)
    (hb : 2 ≤ b.log2) : (x / y).isFinite = true := by
  obtain ⟨n, f, hn, hneq, hn2⟩ := hy
  show (Float.ofModel (Float.Model.pack
    (UnpackedFloat.div format (parts x) (parts y)))).isFinite = _
  rw [hneq]
  obtain ⟨s, heq⟩ | ⟨s, m, e, hm, heq, hcanonical⟩ := parts_of_isFinite hx
  · rw [heq]
    exact isFinite_pack trivial
  · rw [heq]
    have he := hcanonical.le
    have hlog : m.log2 ≤ 52 := Nat.le_of_lt_succ ((Nat.log2_lt hm.ne').2 hcanonical.lt)
    have hlow := hn2.log2_le
    have htarget := targetExponent_eq (totalExponent m e - totalExponent n f)
    rw [totalExponent, totalExponent, hn2.log2_eq] at htarget
    show (Float.ofModel (Float.Model.pack (roundWithAccuracy format _ _
      (min (e - f) (format.targetExponent (totalExponent m e - totalExponent n f))) _))).isFinite = true
    rw [totalExponent, totalExponent, hn2.log2_eq]
    have hquot := log2_div_le (m <<< (e - f - min (e - f)
      (format.targetExponent (m.log2 + 1 + e - ((52 : Nat) + 1 + f)))).toNat) n
    rw [Nat.shiftLeft_eq, log2_mul_two_pow hm, hn2.log2_eq, ← Nat.shiftLeft_eq] at hquot
    refine isFinite_pack (fits_roundWithAccuracy _ _ ?_ ?_) <;> omega

theorem isFinite_ofNat {n : Nat} (hn : n < 2 ^ 64) : (Float.ofNat n).isFinite = true := by
  show (Float.ofScientific n false 0).isFinite = true
  rcases Nat.eq_zero_or_pos n with rfl | hpos
  · decide +kernel
  unfold Float.ofScientific
  have hle : n ≤ largest := hn.le.trans two_pow_le_largest
  split
  · rename_i h
    have hto : n.toUInt64.toNat = n := Nat.mod_eq_of_lt hn
    have hone : Approximates Float.exactlyRepresentablePowersOfTen[0] 1 :=
      approximates_of_isExactly (by decide) (by decide +kernel)
    refine isFinite_mul (approximates_toFloat (by rwa [hto])) hone ?_
    rw [hto]
    have hn' : (n : ℚ) ≤ 2 ^ 53 := by exact_mod_cast h.1.le
    calc (n * (1 : Nat) : ℚ) * (1 + 1 / 2 ^ 52) ^ 2
        ≤ 2 ^ 53 * (1 : Nat) * (1 + 1 / 2 ^ 52) ^ 2 := by gcongr
      _ ≤ ((2 ^ 64 : Nat) : ℚ) := by norm_num
      _ ≤ (largest : ℚ) := by exact_mod_cast two_pow_le_largest
  · have := approximates_ofScientific hpos (Nat.zero_le _) (by rwa [Nat.pow_zero, Nat.mul_one])
    exact this.isFinite

theorem isFinite_ofInt {n : Int} (hn : n.natAbs < 2 ^ 64) : (Float.ofInt n).isFinite = true := by
  cases n with
  | ofNat n => exact isFinite_ofNat hn
  | negSucc n => exact isFinite_neg (isFinite_ofNat hn)

end Workplane.Double

namespace Workplane.Numeral

open Double

theorem isFinite_toFloat {k : UInt64} : k.toFloat.isFinite = true := by
  rcases Nat.eq_zero_or_pos k.toNat with h0 | hpos
  · obtain rfl : k = 0 := UInt64.toNat_inj.1 h0
    decide +kernel
  · exact (approximates_toFloat hpos).isFinite

theorem two_le_log2_ten_pow {n : Nat} (hn : 0 < n) : 2 ≤ (10 ^ n).log2 := by
  rw [Nat.le_log2 (by positivity)]
  calc 2 ^ 2 ≤ 10 ^ 1 := by decide
    _ ≤ 10 ^ n := Nat.pow_le_pow_right (by decide) hn

/-- Dividing by powers of ten keeps a double finite. -/
theorem isFinite_scaleDown {x : Float} (hx : x.isFinite = true) {n : Nat} (hn : 0 < n) :
    (scaleDown x n).isFinite = true := by
  fun_induction scaleDown x n with
  | case1 x n h => exact isFinite_div hx (approximates_powerOfTen h) (two_le_log2_ten_pow hn)
  | case2 x n h h0 => exact hx
  | case3 x n h h0 ih =>
    exact ih (isFinite_div hx (approximates_powerOfTen le_rfl) (two_le_log2_ten_pow (by decide)))
      (by omega)

theorem isFinite_scale {x y : Float} (hx : x.isFinite = true) {e : Int} (h : scale x e = some y) :
    y.isFinite = true := by
  unfold scale at h
  split at h
  · split at h
    · rename_i n hn
      simp only at h
      split at h
      · exact nomatch h
      · rename_i hinf
        obtain rfl := Option.some.inj h
        exact isFinite_mul_of_isInf hx (approximates_powerOfTen hn).isFinite (by simpa using hinf)
    · split at h
      · obtain rfl := Option.some.inj h
        exact hx
      · exact nomatch h
  · obtain rfl := Option.some.inj h
    exact isFinite_scaleDown hx (Nat.succ_pos _)

/-- A whole number is scaled within the range of doubles. -/
theorem exists_scale {k : UInt64} {e : Int} (h : ∀ n : Nat, e = n → 0 < k.toNat ∧ n ≤ 308 ∧
      ((k.toNat * (10 ^ n : Nat) : ℚ) * (1 + 1 / 2 ^ 52) ^ 2 ≤ largest)) :
    ∃ y, scale k.toFloat e = some y := by
  cases e with
  | negSucc n => exact ⟨_, rfl⟩
  | ofNat n =>
    obtain ⟨hk, hn, hle⟩ := h n rfl
    have hfin := isFinite_mul (approximates_toFloat hk) (approximates_powerOfTen hn) hle
    refine ⟨k.toFloat * powerOfTen n, ?_⟩
    unfold scale
    simp only [if_pos hn, isInf_of_isFinite hfin, Bool.false_eq_true, if_false]

/-- The value of a numeral is a finite double. -/
theorem isFinite_of_toFloat? {n : Numeral} {x : Float} (h : n.toFloat? = some x) :
    x.isFinite = true := by
  unfold toFloat? at h
  obtain ⟨y, hy, hx⟩ := Option.bind_eq_some_iff.1 h
  have hfin := isFinite_scale isFinite_toFloat hy
  obtain rfl := Option.some.inj hx
  split
  · exact isFinite_neg hfin
  · exact hfin

end Workplane.Numeral
