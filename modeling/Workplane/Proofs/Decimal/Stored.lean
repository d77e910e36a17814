import Workplane.Json.Parser
import Workplane.Json.Printer
import Workplane.Proofs.Decimal.Doubles
import Workplane.Proofs.Decimal.Shortest
import Workplane.Proofs.Json.Numbers

/-!
# The numeral of a stored double

The stored layout spells a numeral (`Decimal.Layout.finite_eq_chars`), and reading the numeral of
a finite double gives a finite double again (`Decimal.exists_toFloat?_numeral`).
-/

namespace Workplane.Decimal

open Numeral Float.Model Float.Model.UnpackedFloat

/-! ### The numeral of a layout -/

/-- Digits with the point after the first `point` of them. -/
def positional (digits : List Nat) (point : Int) : Numeral where
  negative := false
  whole :=
    if point ≤ 0 then [0]
    else digits.take point.toNat ++ List.replicate (point.toNat - digits.length) 0
  fraction := some <|
    if point ≤ 0 then List.replicate (-point).toNat 0 ++ digits
    else if digits.length ≤ point.toNat then [0]
    else digits.drop point.toNat
  exponent := none

/-- Digits with the point after the first of them, and an exponent. -/
def scientific (digits : List Nat) (exponent : Int) : Numeral where
  negative := false
  whole := digits.take 1
  fraction := if digits.length ≤ 1 then none else some (digits.drop 1)
  exponent := some exponent

/-- The numeral of a magnitude in the stored layout. -/
def Binary.numeral (b : Binary) : Numeral :=
  if b.significand = 0 then positional [0] 1
  else
    let digits := digits b.shortest.1
    let point := b.shortest.2 + digits.length
    if Layout.stored.isPositional (point - 1) then positional digits point
    else scientific digits (point - 1)

/-- The numeral of a finite double in the stored layout. -/
def numeral (x : Float) : Numeral :=
  { (Binary.ofBits x.toBits).numeral with negative := decide (2 ^ 63 ≤ x.toBits.toNat) }

theorem magnitudeChars_positional (digits : List Nat) (point : Int) :
    (positional digits point).magnitudeChars =
      Layout.stored.positionalDigits (digitChars digits) point := by
  unfold positional Layout.positionalDigits
  simp only [magnitudeChars, fractionChars, exponentChars, length_digitChars, List.append_nil]
  split
  · rw [digitChars_append, digitChars_replicate_zero]
    rfl
  · split
    · rename_i h
      rw [List.take_of_length_le h, digitChars_append, digitChars_replicate_zero]
      rfl
    · rename_i h
      rw [show point.toNat - digits.length = 0 by omega, List.replicate_zero, List.append_nil,
        digitChars, List.map_take, digitChars, List.map_drop]
      rfl

theorem magnitudeChars_scientific (digits : List Nat) (exponent : Int) :
    (scientific digits exponent).magnitudeChars =
      Layout.scientificDigits (digitChars digits) exponent := by
  rcases digits with - | ⟨first, - | ⟨second, rest⟩⟩ <;>
    simp [scientific, Layout.scientificDigits, magnitudeChars, fractionChars, exponentChars,
      digitChars, ← digitChars_digits]

/-- What the layout writes for a double is the spelling of a numeral. -/
theorem magnitude_eq (bits : UInt64) :
    Layout.stored.magnitude bits = (Binary.ofBits bits).numeral.magnitudeChars := by
  unfold Layout.magnitude Binary.numeral
  simp only
  split
  · rfl
  · rw [apply_ite magnitudeChars, magnitudeChars_positional, magnitudeChars_scientific,
      digitChars_digits, ← digitChars_digits, length_digitChars]

/-- The stored form of a finite double spells its numeral. -/
theorem finite_eq_chars (x : Float) : Layout.stored.finite x = (numeral x).chars := by
  have hmag : (numeral x).magnitudeChars = (Binary.ofBits x.toBits).numeral.magnitudeChars := rfl
  unfold Layout.finite chars
  simp only [hmag, ← magnitude_eq]
  rcases Nat.lt_or_ge x.toBits.toNat (2 ^ 63) with h | h
  · rw [if_pos h, if_neg]
    simpa [numeral] using h
  · rw [if_neg (by omega), if_pos]
    simpa [numeral] using h

/-! ### The spelling is well-formed -/

theorem isWhole_take {ds : List Nat} {n : Nat} (hds : ∀ d ∈ ds, d < 10) (hne : ds ≠ [])
    (hhead : ds.head? ≠ some 0) (hn : 0 < n) (zeros : Nat) :
    IsWhole (ds.take n ++ List.replicate zeros 0) := by
  obtain ⟨d, ds, rfl⟩ := List.exists_cons_of_ne_nil hne
  obtain ⟨n, rfl⟩ := Nat.exists_eq_succ_of_ne_zero hn.ne'
  refine ⟨by simp, fun e he => ?_, fun h => absurd h (by simpa using hhead)⟩
  rcases List.mem_append.1 he with he | he
  · exact hds e (List.mem_of_mem_take he)
  · rw [List.eq_of_mem_replicate he]
    decide

/-- Digits without a leading zero are well formed wherever the point stands. -/
theorem wellFormed_positional {ds : List Nat} (hds : ∀ d ∈ ds, d < 10) (hne : ds ≠ [])
    (hhead : ds.head? ≠ some 0) (point : Int) : (positional ds point).WellFormed := by
  refine ⟨?_, fun es hes => ?_⟩
  · show IsWhole (if point ≤ 0 then _ else _)
    split
    · exact isWhole_digits 0
    · exact isWhole_take hds hne hhead (by omega) _
  · obtain rfl := Option.some.inj hes
    split
    · refine ⟨by simp [hne], fun d hd => ?_⟩
      rcases List.mem_append.1 hd with hd | hd
      · rw [List.eq_of_mem_replicate hd]
        decide
      · exact hds d hd
    · split
      · simp
      · exact ⟨by simp; omega, fun d hd => hds d (List.mem_of_mem_drop hd)⟩

theorem wellFormed_scientific {ds : List Nat} (hds : ∀ d ∈ ds, d < 10) (hne : ds ≠ [])
    (hhead : ds.head? ≠ some 0) (exponent : Int) : (scientific ds exponent).WellFormed := by
  refine ⟨?_, fun es hes => ?_⟩
  · have := isWhole_take hds hne hhead Nat.one_pos 0
    rwa [List.replicate_zero, List.append_nil] at this
  · change (if ds.length ≤ 1 then none else some (ds.drop 1)) = some es at hes
    split at hes
    · exact nomatch hes
    · obtain rfl := Option.some.inj hes
      refine ⟨fun h => ?_, fun d hd => hds d (List.mem_of_mem_drop hd)⟩
      rw [List.drop_eq_nil_iff] at h
      contradiction

theorem wellFormed_positional_zero : (positional [0] 1).WellFormed :=
  ⟨isWhole_digits 0, fun es hes => by obtain rfl := Option.some.inj hes; decide⟩

/-! ### The bits of a finite double -/

theorem toNat_unpackExponent (bits : UInt64) :
    (@unpackExponent Double.format bits.toBitVec).toNat = bits.toNat / 2 ^ 52 % 2048 := by
  simp [unpackExponent, BitVec.extractLsb, Nat.shiftRight_eq_div_pow]

theorem field_lt_of_isFinite {x : Float} (h : x.isFinite = true) :
    x.toBits.toNat / 2 ^ 52 % 2048 < 2047 := by
  have hexp := toNat_unpackExponent x.toBits
  by_contra hge
  have hfull : @unpackExponent Double.format x.toBits.toBitVec = -1#11 :=
    BitVec.eq_of_toNat_eq (by
      rw [hexp]
      show _ = 2047
      omega)
  exact Double.unpackExponent_ne_of_isFinite (b := x.toBits.toBitVec) h hfull

/-- The magnitude of a finite double. -/
structure Binary.IsDouble (b : Binary) : Prop where
  canonical : Double.IsCanonical b.significand b.exponent
  closerBelow : b.significand ≠ 2 ^ 52 → b.closerBelow = false

theorem isDouble_ofBits {bits : UInt64} (h : bits.toNat / 2 ^ 52 % 2048 < 2047) :
    (Binary.ofBits bits).IsDouble := by
  unfold Binary.ofBits
  simp only
  split
  · exact ⟨⟨by dsimp only; omega, le_rfl, by dsimp only; omega, Or.inl rfl⟩, fun _ => rfl⟩
  · refine ⟨⟨?_, ?_, ?_, Or.inr (Nat.le_add_right _ _)⟩, fun hne => ?_⟩
    iterate 3
      dsimp only
      omega
    · simp only [Bool.and_eq_false_iff, beq_eq_false_iff_ne]
      refine Or.inl fun h0 => hne ?_
      show 2 ^ 52 + bits.toNat % 2 ^ 52 = 2 ^ 52
      rw [h0, Nat.add_zero]

theorem isDouble_of_isFinite {x : Float} (h : x.isFinite = true) :
    (Binary.ofBits x.toBits).IsDouble :=
  isDouble_ofBits (field_lt_of_isFinite h)

/-- What is written for a finite double is a well-formed numeral. -/
theorem wellFormed_numeral {x : Float} (h : x.isFinite = true) : (numeral x).WellFormed := by
  have hsig := (isDouble_of_isFinite h).canonical.lt
  have hwf : (Binary.ofBits x.toBits).numeral.WellFormed := by
    unfold Binary.numeral
    simp only
    split
    · exact wellFormed_positional_zero
    · rename_i h0
      obtain ⟨hd, -⟩ := Binary.shortest_bounds (Nat.pos_of_ne_zero h0) hsig
      split
      · exact wellFormed_positional (fun d => lt_ten_of_mem_digits) (digits_ne_nil _)
          (head?_digits hd) _
      · exact wellFormed_scientific (fun d => lt_ten_of_mem_digits) (digits_ne_nil _)
          (head?_digits hd) _
  exact ⟨hwf.whole, hwf.fraction⟩

/-! ### The value of a spelling -/

/-- Digits that fit into sixty-four bits are all taken. -/
theorem fill_ofDigits {ds es : List Nat} (h : ofDigits (ds ++ es) < 2 ^ 64) :
    fill (ofDigits ds) es = (ofDigits (ds ++ es), []) := by
  induction es generalizing ds with
  | nil => rw [List.append_nil]; rfl
  | cons e es ih =>
    have hone : ofDigits (ds ++ [e]) = ofDigits ds * 10 + e := by
      rw [ofDigits_append]
      simp [ofDigits]
    have hlt : ofDigits (ds ++ [e]) < 2 ^ 64 := by
      rw [List.append_cons, ofDigits_append] at h
      exact (Nat.le_mul_of_pos_right _ (by positivity)).trans_lt
        ((Nat.le_add_right _ _).trans_lt h)
    rw [fill, if_pos (hone ▸ hlt), ← hone, ih (by rwa [← List.append_cons]), ← List.append_cons]

/-- The digits of a numeral that fit into 64 bits are all kept. -/
theorem toFloat?_eq {n : Numeral} {fraction : List Nat} (hf : n.fraction.getD [] = fraction)
    (h : ofDigits (n.whole ++ fraction) < 2 ^ 64) :
    n.toFloat? = (scale (ofDigits (n.whole ++ fraction)).toUInt64.toFloat
      (n.exponent.getD 0 - fraction.length)).map fun x => if n.negative then -x else x := by
  have hwhole : ofDigits ([] ++ n.whole) < 2 ^ 64 := by
    rw [ofDigits_append] at h
    exact (Nat.le_mul_of_pos_right _ (by positivity)).trans_lt ((Nat.le_add_right _ _).trans_lt h)
  have hfirst : fill 0 n.whole = (ofDigits n.whole, []) := fill_ofDigits hwhole
  unfold toFloat?
  rw [hf, hfirst]
  simp only [fill_ofDigits h, List.length_nil, Nat.sub_zero, Int.natCast_zero, Int.zero_sub]
  rw [Int.add_comm, ← Int.sub_eq_add_neg]
  cases scale _ (n.exponent.getD 0 - fraction.length) <;> rfl

/-! ### Reading back -/

/-- A positional spelling has digits after the point, and its digits fit into 64 bits. -/
theorem digits_positional {ds : List Nat} (hds : ∀ d ∈ ds, d < 10) (hne : ds ≠ []) {point : Int}
    (hpoint : point ≤ 16) (hlt : ofDigits ds < 2 ^ 64) :
    ∃ fraction, (positional ds point).fraction = some fraction ∧
      (0 < fraction.length ∧ fraction.length ≤ ds.length + (-point).toNat) ∧
      ofDigits ds ≤ ofDigits ((positional ds point).whole ++ fraction) ∧
      ofDigits ((positional ds point).whole ++ fraction) < 2 ^ 64 := by
  have hlength := List.length_pos_iff.2 hne
  unfold positional
  simp only
  rcases lt_or_ge 0 point with hpos | hnonpos
  -- The point is among the digits, or zeros lead from them up to it.
  · simp only [if_neg (show ¬ point ≤ 0 by omega)]
    split
    · rename_i hlen
      refine ⟨_, rfl, by rw [List.length_singleton]; omega, ?_⟩
      rw [List.take_of_length_le hlen]
      have hdigits : ∀ d ∈ ds ++ List.replicate (point.toNat - ds.length) 0 ++ [0], d < 10 := by
        intro d hd
        simp only [List.mem_append, List.mem_replicate, List.mem_singleton] at hd
        rcases hd with (hd | ⟨-, rfl⟩) | rfl
        · exact hds d hd
        · decide
        · decide
      refine ⟨?_, (ofDigits_lt hdigits).trans_le ?_⟩
      · rw [List.append_assoc, ofDigits_append]
        exact (Nat.le_mul_of_pos_right _ (by positivity)).trans (Nat.le_add_right _ _)
      · calc 10 ^ (ds ++ List.replicate (point.toNat - ds.length) 0 ++ [0]).length ≤ 10 ^ 17 :=
              Nat.pow_le_pow_right (by decide) (by simp; omega)
          _ ≤ 2 ^ 64 := by decide
    · rename_i hlen
      refine ⟨_, rfl, by rw [List.length_drop]; omega, ?_⟩
      rw [show point.toNat - ds.length = 0 by omega, List.replicate_zero, List.append_nil,
        List.take_append_drop]
      exact ⟨le_rfl, hlt⟩
  -- The zeros between the point and the digits add nothing.
  · simp only [if_pos hnonpos]
    refine ⟨_, rfl, by rw [List.length_append, List.length_replicate]; omega, ?_⟩
    rw [ofDigits_append, ofDigits_append, ofDigits_replicate_zero]
    refine ⟨(Nat.le_add_left _ _).trans (Nat.le_add_left _ _), ?_⟩
    simpa [ofDigits] using hlt

/-- A positional spelling is read as its digits, divided by a power of ten. -/
theorem toFloat?_positional {ds : List Nat} (hds : ∀ d ∈ ds, d < 10) (hne : ds ≠ []) {point : Int}
    (hpoint : point ≤ 16) (hlt : ofDigits ds < 2 ^ 64) :
    ∃ (k : UInt64) (n : Nat), ofDigits ds ≤ k.toNat ∧
      (0 < n ∧ n ≤ ds.length + (-point).toNat) ∧
      (positional ds point).toFloat? = some (scaleDown k.toFloat n) := by
  obtain ⟨fraction, hf, hn, hge, hkept⟩ := digits_positional hds hne hpoint hlt
  refine ⟨(ofDigits ((positional ds point).whole ++ fraction)).toUInt64, fraction.length, ?_, hn,
    ?_⟩
  · exact hge.trans (Nat.mod_eq_of_lt hkept).ge
  · rw [toFloat?_eq (by rw [hf]; rfl) hkept]
    obtain ⟨n, hn⟩ := Nat.exists_eq_succ_of_ne_zero hn.1.ne'
    rw [show (positional ds point).exponent.getD 0 - (fraction.length : Int) = .negSucc n by
      rw [hn]; exact Int.zero_sub _, hn]
    rfl

/-- A scientific spelling is read as its digits, scaled by a power of ten. -/
theorem toFloat?_scientific {ds : List Nat} {exponent : Int} (hlt : ofDigits ds < 2 ^ 64)
    (hne : ds ≠ []) :
    (scientific ds exponent).toFloat? =
      scale (ofDigits ds).toUInt64.toFloat (exponent + 1 - ds.length) := by
  have hpos := List.length_pos_iff.2 hne
  have hfraction : (scientific ds exponent).fraction.getD [] = ds.drop 1 := by
    show (if ds.length ≤ 1 then none else some (ds.drop 1)).getD [] = _
    split
    · rename_i hone
      exact (List.drop_eq_nil_iff.2 hone).symm
    · rfl
  have hdigits : (scientific ds exponent).whole ++ ds.drop 1 = ds := List.take_append_drop 1 ds
  have hpower : (scientific ds exponent).exponent.getD 0 - (ds.length - 1 : Nat) =
      exponent + 1 - ds.length := by
    show exponent - _ = _
    omega
  rw [toFloat?_eq hfraction (by rwa [hdigits]), hdigits, List.length_drop, hpower]
  cases scale (ofDigits ds).toUInt64.toFloat (exponent + 1 - ds.length) <;> rfl

/-- The five largest magnitudes, which the general bound on products does not reach. -/
theorem isSome_toFloat?_numeral_largest : ∀ k < 5,
    (Binary.numeral ⟨2 ^ 53 - 1 - k, 971, false⟩).toFloat?.isSome = true := by
  decide +kernel

/-- Apart from the five largest magnitudes, the shortest digits stay away from the largest double
by more than the two roundings of a product add. -/
theorem le_largest_of_shortest {b : Binary} (hpos : 0 < b.significand)
    (hlt : b.significand < 2 ^ 53) (he : b.exponent ≤ 971)
    (h : b.exponent = 971 → b.significand < 2 ^ 53 - 5) {n : Nat} (hn : b.shortest.2 = n) :
    n ≤ 308 ∧
      (b.shortest.1 * (10 ^ n : Nat) : ℚ) * (1 + 1 / 2 ^ 52) ^ 2 ≤ Double.largest := by
  obtain ⟨hd, -, -, hle⟩ := Binary.shortest_bounds hpos hlt
  rw [hn, zpow_natCast] at hle
  -- The upper end of the interval; only the largest exponent needs the bound on the significand.
  have hbound : (4 * b.significand + 2 : ℚ) * 2 ^ (b.exponent - 2) ≤
      (2 ^ 55 - 22) * 2 ^ (969 : Int) := by
    rcases eq_or_lt_of_le he with heq | hlt'
    · have hsig : b.significand + 6 ≤ 2 ^ 53 := by
        have := h heq
        omega
      have hsig' : (b.significand : ℚ) + 6 ≤ 2 ^ 53 := by exact_mod_cast hsig
      rw [heq]
      show _ * (2 : ℚ) ^ (969 : Int) ≤ _
      gcongr
      linarith
    · have hsig' : (b.significand : ℚ) + 1 ≤ 2 ^ 53 := by exact_mod_cast hlt
      calc (4 * b.significand + 2 : ℚ) * 2 ^ (b.exponent - 2) ≤ 2 ^ 55 * 2 ^ (968 : Int) := by
            gcongr
            · linarith
            · norm_num
            · omega
        _ = 2 ^ 54 * 2 ^ (969 : Int) := by
            rw [show (969 : Int) = 968 + 1 by rfl, zpow_add_one₀ (by norm_num)]
            ring
        _ ≤ (2 ^ 55 - 22) * 2 ^ (969 : Int) := by
            gcongr
            norm_num
  have hmax : (b.shortest.1 * (10 ^ n : Nat) : ℚ) * (1 + 1 / 2 ^ 52) ^ 2 ≤ Double.largest := by
    push_cast
    calc (b.shortest.1 * 10 ^ n : ℚ) * (1 + 1 / 2 ^ 52) ^ 2
        ≤ ((2 ^ 55 - 22) * 2 ^ (969 : Int)) * (1 + 1 / 2 ^ 52) ^ 2 := by
          exact mul_le_mul_of_nonneg_right (hle.trans hbound) (by positivity)
      _ = ((2 ^ 55 - 22) * (1 + 1 / 2 ^ 52) ^ 2) * 2 ^ (969 : Int) := by ring
      _ ≤ ((2 ^ 53 - 1) * 4) * 2 ^ (969 : Int) := by
          exact mul_le_mul_of_nonneg_right (by norm_num) (by positivity)
      _ = Double.largest := by
          rw [Double.cast_largest, show (971 : Int) = 969 + 2 by rfl, zpow_add₀ (by norm_num)]
          ring
  refine ⟨?_, hmax⟩
  -- A larger power of ten exceeds the largest double, whatever the digits are.
  by_contra hbig
  have hten : (Double.largest : ℚ) < (10 ^ 309 : Nat) := by
    exact_mod_cast (by decide +kernel : Double.largest < 10 ^ 309)
  have hpow : ((10 ^ 309 : Nat) : ℚ) ≤ (10 ^ n : Nat) := by
    exact_mod_cast Nat.pow_le_pow_right (by decide) (by omega)
  have hone : ((10 ^ n : Nat) : ℚ) ≤ b.shortest.1 * (10 ^ n : Nat) :=
    le_mul_of_one_le_left (Nat.cast_nonneg _) (by exact_mod_cast hd)
  have hround : (b.shortest.1 * (10 ^ n : Nat) : ℚ) ≤
      b.shortest.1 * (10 ^ n : Nat) * (1 + 1 / 2 ^ 52) ^ 2 :=
    le_mul_of_one_le_right (by positivity) (by norm_num)
  linarith

/-- The value of a numeral is that of its magnitude, with the sign. -/
theorem toFloat?_withSign {n : Numeral} (hn : n.negative = false) (negative : Bool) :
    ({ n with negative } : Numeral).toFloat? =
      n.toFloat?.map fun y => if negative then -y else y := by
  unfold toFloat?
  simp only [hn]
  show Option.bind _ _ = (Option.bind _ _).map _
  rw [Option.map_bind]
  rfl

theorem Binary.negative_numeral (b : Binary) : b.numeral.negative = false := by
  unfold Binary.numeral
  simp only
  split
  · rfl
  · split <;> rfl

/-- The sign is read apart from the digits. -/
theorem toFloat?_numeral (x : Float) :
    (numeral x).toFloat? = (Binary.ofBits x.toBits).numeral.toFloat?.map fun y =>
      if decide (2 ^ 63 ≤ x.toBits.toNat) then -y else y :=
  toFloat?_withSign (Binary.negative_numeral _) _

/-- A magnitude is read as a whole number divided by a power of ten, or as its shortest digits
scaled. -/
theorem Binary.IsDouble.toFloat?_numeral {b : Binary} (h : b.IsDouble) (hpos : 0 < b.significand) :
    (∃ (k : UInt64) (n : Nat), 0 < k.toNat ∧ (0 < n ∧ n ≤ 308) ∧
      b.numeral.toFloat? = some (scaleDown k.toFloat n)) ∨
    ∃ k : UInt64, k.toNat = b.shortest.1 ∧ b.numeral.toFloat? = scale k.toFloat b.shortest.2 := by
  obtain ⟨hd, hd58, -⟩ := Binary.shortest_bounds hpos h.canonical.lt
  have hds : ∀ d ∈ digits b.shortest.1, d < 10 := fun d => lt_ten_of_mem_digits
  have hne := digits_ne_nil b.shortest.1
  have hvalue : ofDigits (digits b.shortest.1) < 2 ^ 64 := by
    rw [ofDigits_digits]
    omega
  unfold Binary.numeral
  simp only [if_neg hpos.ne']
  split
  · rename_i hpositional
    simp only [Layout.isPositional, Layout.stored, Bool.and_eq_true,
      decide_eq_true_eq] at hpositional
    have hpoint : b.shortest.2 + ((digits b.shortest.1).length : Int) ≤ 16 := by omega
    obtain ⟨k, n, hk, hn, heq⟩ := toFloat?_positional hds hne hpoint hvalue
    have hlength := length_digits_le (by decide) (show b.shortest.1 < 10 ^ 18 by omega)
    rw [ofDigits_digits] at hk
    exact Or.inl ⟨k, n, by omega, ⟨hn.1, by omega⟩, heq⟩
  · refine Or.inr ⟨b.shortest.1.toUInt64, Nat.mod_eq_of_lt (by omega), ?_⟩
    rw [toFloat?_scientific hvalue hne, ofDigits_digits]
    congr 1
    omega

/-- What is written for a double is read as some double. -/
theorem Binary.IsDouble.exists_toFloat? {b : Binary} (h : b.IsDouble) :
    ∃ y, b.numeral.toFloat? = some y := by
  have hlt := h.canonical.lt
  by_cases hlarge : b.exponent = 971 ∧ 2 ^ 53 - 5 ≤ b.significand
  · obtain ⟨k, hk, hsig⟩ : ∃ k < 5, b.significand = 2 ^ 53 - 1 - k :=
      ⟨2 ^ 53 - 1 - b.significand, by omega, by omega⟩
    have heq : b = ⟨2 ^ 53 - 1 - k, 971, false⟩ := by
      rw [← hsig, ← hlarge.1, ← h.closerBelow (by omega)]
    rw [heq]
    exact Option.isSome_iff_exists.1 (isSome_toFloat?_numeral_largest k hk)
  · rcases Nat.eq_zero_or_pos b.significand with h0 | hpos
    · unfold Binary.numeral
      rw [if_pos h0]
      exact Option.isSome_iff_exists.1 (by decide +kernel)
    · obtain ⟨k, n, -, -, heq⟩ | ⟨k, hk, heq⟩ := h.toFloat?_numeral hpos
      · exact ⟨_, heq⟩
      · obtain ⟨hd, -⟩ := Binary.shortest_bounds hpos hlt
        rw [heq]
        refine exists_scale fun n hn => ?_
        rw [hk]
        exact ⟨hd, le_largest_of_shortest hpos hlt h.canonical.le (fun he' => by omega) hn⟩

/-- Reading the spelling of a finite double gives a finite double. -/
theorem exists_toFloat?_numeral {x : Float} (h : x.isFinite = true) :
    ∃ y, (numeral x).toFloat? = some y ∧ y.isFinite = true := by
  obtain ⟨y, hy⟩ := (isDouble_of_isFinite h).exists_toFloat?
  have hsigned := toFloat?_numeral x
  rw [hy] at hsigned
  exact ⟨_, hsigned, isFinite_of_toFloat? hsigned⟩

end Workplane.Decimal
