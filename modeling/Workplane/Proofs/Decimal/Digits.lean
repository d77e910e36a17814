import Mathlib.Data.List.Induction
import Mathlib.Tactic.Ring
import Workplane.Decimal.Numeral

/-!
# Decimal digits

The digits of a number, and the number that digits spell.  The two are inverse
(`Numeral.ofDigits_digits`); the digits of a positive number do not begin with zero
(`Numeral.head?_digits`), and a number with `k` digits is below `10 ^ k`
(`Numeral.ofDigits_lt`).
-/

namespace Workplane.Numeral

/-- The decimal digits of a number, most significant first; zero has one digit. -/
def digits (n : Nat) : List Nat :=
  (Nat.toDigits 10 n).map fun c => c.toNat - 48

/-- The characters of digits. -/
def digitChars (ds : List Nat) : List Char :=
  ds.map Nat.digitChar

theorem digitChars_append (ds es : List Nat) :
    digitChars (ds ++ es) = digitChars ds ++ digitChars es :=
  List.map_append

theorem digitChars_replicate_zero (n : Nat) :
    digitChars (List.replicate n 0) = List.replicate n '0' :=
  List.map_replicate

theorem length_digitChars (ds : List Nat) : (digitChars ds).length = ds.length :=
  List.length_map _

theorem digits_of_lt {n : Nat} (h : n < 10) : digits n = [n] := by
  rw [digits, Nat.toDigits_of_lt_base h, List.map_singleton,
    Nat.toNat_digitChar_sub_48_of_lt_ten h]

theorem digits_of_le {n : Nat} (h : 10 ≤ n) : digits n = digits (n / 10) ++ [n % 10] := by
  have hlt : n % 10 < 10 := Nat.mod_lt n (by decide)
  rw [digits, Nat.toDigits_of_base_le (by decide) h, List.map_append, List.map_singleton,
    Nat.toNat_digitChar_sub_48_of_lt_ten hlt]
  rfl

theorem digitChars_digits (n : Nat) : digitChars (digits n) = Nat.toDigits 10 n := by
  induction n using Nat.strongRecOn with
  | ind n ih =>
    rcases Nat.lt_or_ge n 10 with h | h
    · rw [digits_of_lt h, Nat.toDigits_of_lt_base h]
      rfl
    · rw [digits_of_le h, digitChars_append, ih (n / 10) (by omega),
        Nat.toDigits_of_base_le (by decide) h]
      rfl

theorem lt_ten_of_mem_digits {n d : Nat} (hd : d ∈ digits n) : d < 10 := by
  induction n using Nat.strongRecOn with
  | ind n ih =>
    rcases Nat.lt_or_ge n 10 with h | h
    · rw [digits_of_lt h, List.mem_singleton] at hd
      exact hd ▸ h
    · rw [digits_of_le h, List.mem_append, List.mem_singleton] at hd
      rcases hd with hd | rfl
      · exact ih (n / 10) (by omega) hd
      · exact Nat.mod_lt n (by decide)

theorem digits_ne_nil (n : Nat) : digits n ≠ [] := by
  rw [digits, ne_eq, List.map_eq_nil_iff]
  exact Nat.toDigits_ne_nil

/-- The digits of a positive number do not begin with zero. -/
theorem length_digits_le {n k : Nat} (hk : 0 < k) (h : n < 10 ^ k) :
    (digits n).length ≤ k :=
  (List.length_map _).trans_le ((Nat.length_toDigits_le_iff (by decide) hk).2 h)

theorem head?_digits {n : Nat} (hn : 0 < n) : (digits n).head? ≠ some 0 := by
  induction n using Nat.strongRecOn with
  | ind n ih =>
    rcases Nat.lt_or_ge n 10 with h | h
    · rw [digits_of_lt h]
      simp
      omega
    · rw [digits_of_le h, List.head?_append]
      have hhead := ih (n / 10) (by omega) (by omega)
      cases hd : (digits (n / 10)).head? with
      | none => exact absurd (List.head?_eq_none_iff.1 hd) (digits_ne_nil _)
      | some d =>
        rw [hd] at hhead
        exact hhead

/-- The front digits of a number count for more. -/
theorem ofDigits_append (ds es : List Nat) :
    ofDigits (ds ++ es) = ofDigits ds * 10 ^ es.length + ofDigits es := by
  have foldl_eq (acc : Nat) (es : List Nat) :
      es.foldl (fun acc d => acc * 10 + d) acc = acc * 10 ^ es.length + ofDigits es := by
    induction es generalizing acc with
    | nil => simp [ofDigits]
    | cons e es ih =>
      have hes : ofDigits (e :: es) = (0 * 10 + e) * 10 ^ es.length + ofDigits es :=
        ih (0 * 10 + e)
      rw [List.foldl_cons, ih, hes, List.length_cons]
      ring
  rw [ofDigits, List.foldl_append, foldl_eq]
  rfl

/-- A number is read back from its digits. -/
theorem ofDigits_digits (n : Nat) : ofDigits (digits n) = n := by
  induction n using Nat.strongRecOn with
  | ind n ih =>
    rcases Nat.lt_or_ge n 10 with h | h
    · rw [digits_of_lt h]
      simp [ofDigits]
    · rw [digits_of_le h, ofDigits_append, ih (n / 10) (by omega)]
      simp only [ofDigits, List.foldl_cons, List.foldl_nil, List.length_singleton, Nat.pow_one,
        Nat.zero_mul, Nat.zero_add]
      omega

theorem ofDigits_replicate_zero (n : Nat) : ofDigits (List.replicate n 0) = 0 := by
  induction n with
  | zero => rfl
  | succ n ih =>
    rw [List.replicate_succ', ofDigits_append, ih]
    rfl

/-- A number is below the power of ten of the number of its digits. -/
theorem ofDigits_lt {ds : List Nat} (h : ∀ d ∈ ds, d < 10) : ofDigits ds < 10 ^ ds.length := by
  induction ds using List.reverseRecOn with
  | nil => decide
  | append_singleton ds d ih =>
    have hd : d < 10 := h d (List.mem_append_right _ (.head []))
    have hds := ih fun e he => h e (List.mem_append_left _ he)
    have hone : ofDigits [d] = d := by simp [ofDigits]
    have hpow : 10 ^ (ds ++ [d]).length = 10 ^ ds.length * 10 := by
      rw [List.length_append, List.length_singleton, Nat.pow_succ]
    rw [ofDigits_append, hone, hpow, List.length_singleton, Nat.pow_one]
    omega

end Workplane.Numeral
