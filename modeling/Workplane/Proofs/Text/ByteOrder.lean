import Mathlib.Data.List.Sort
import Mathlib.Data.String.Basic
import Mathlib.Tactic.SplitIfs

/-!
# The order of texts

Texts are ordered by their characters, and UTF-8 keeps that order: comparing the bytes of two texts
compares the texts (`bytes_lt_bytes_iff`).  Nor is the encoding of one character ever at the front
of that of another, so a text starts with another one exactly if its bytes do
(`bytes_prefix_bytes_iff`).
-/

namespace Workplane

/-- The bytes of a text in UTF-8. -/
def bytes (s : String) : List UInt8 :=
  s.toUTF8.data.toList

theorem bytes_eq_flatMap (s : String) : bytes s = s.toList.flatMap String.utf8EncodeChar := by
  unfold bytes
  show s.toByteArray.data.toList = _
  rw [← String.utf8Encode_toList, List.utf8Encode, List.data_toByteArray]

theorem toNat_byte {n : Nat} (h : n < 256) : (UInt8.ofNat n).toNat = n := by
  rw [UInt8.toNat_ofNat']
  exact Nat.mod_eq_of_lt h

/-- The bytes of a greater character are greater, whatever follows them. -/
theorem utf8EncodeChar_append_lt {c d : Char} (h : c < d) (xs ys : List UInt8) :
    String.utf8EncodeChar c ++ xs < String.utf8EncodeChar d ++ ys := by
  have hlt : c.val.toNat < d.val.toNat := UInt32.lt_iff_toNat_lt.1 h
  have hd : d.val.toNat < 1114112 := by
    have := d.valid
    simp only [UInt32.isValidChar, Nat.isValidChar] at this
    omega
  -- The digits are those of base 64.
  have h2 (n : Nat) : n / 4096 = n / 64 / 64 := (Nat.div_div_eq_div_mul n 64 64).symm
  have h3 (n : Nat) : n / 262144 = n / 64 / 64 / 64 := by
    rw [Nat.div_div_eq_div_mul, Nat.div_div_eq_div_mul]
  simp only [String.utf8EncodeChar]
  -- A longer encoding starts with a greater byte; among those of one length the first digits that
  -- differ decide.
  split_ifs <;>
    simp (disch := omega) only [List.cons_append, List.nil_append, List.cons_lt_cons_iff,
      UInt8.lt_iff_toNat_lt, ← UInt8.toNat_inj, toNat_byte, h2, h3] <;>
    omega

theorem utf8EncodeChar_ne_nil (c : Char) : String.utf8EncodeChar c ≠ [] := by
  simp only [String.utf8EncodeChar]
  split_ifs <;> exact List.cons_ne_nil _ _

theorem flatMap_utf8EncodeChar_lt {cs ds : List Char} (h : cs < ds) :
    cs.flatMap String.utf8EncodeChar < ds.flatMap String.utf8EncodeChar := by
  induction h with
  | @nil d ds =>
    rw [List.flatMap_cons]
    cases hbytes : String.utf8EncodeChar d with
    | nil => exact absurd hbytes (utf8EncodeChar_ne_nil d)
    | cons b bs => exact .nil
  | cons _ ih =>
    rw [List.flatMap_cons, List.flatMap_cons]
    exact List.append_left_lt ih
  | rel hcd =>
    rw [List.flatMap_cons, List.flatMap_cons]
    exact utf8EncodeChar_append_lt hcd _ _

/-- Texts stand in the order of their bytes. -/
theorem bytes_lt_bytes_iff {s t : String} : bytes s < bytes t ↔ s < t := by
  have hlt {s t : String} (h : s < t) : bytes s < bytes t := by
    rw [bytes_eq_flatMap, bytes_eq_flatMap]
    exact flatMap_utf8EncodeChar_lt (String.lt_iff.1 h)
  refine ⟨fun h => ?_, hlt⟩
  rcases lt_trichotomy s t with hst | rfl | hts
  · exact hst
  · exact absurd h (List.lt_irrefl _)
  · exact absurd (List.lt_trans h (hlt hts)) (List.lt_irrefl _)

/-- What stands in the order of the bytes of its names is determined by what there is. -/
theorem eq_of_ascending {f : α → String} {xs ys : List α}
    (hxs : xs.Pairwise fun a b => bytes (f a) < bytes (f b))
    (hys : ys.Pairwise fun a b => bytes (f a) < bytes (f b)) (hmem : ∀ a, a ∈ xs ↔ a ∈ ys) : xs = ys := by
  have : Std.Irrefl fun a b => bytes (f a) < bytes (f b) := ⟨fun _ => List.lt_irrefl _⟩
  have : Std.Antisymm fun a b => bytes (f a) < bytes (f b) :=
    ⟨fun _ _ hab hba => absurd (List.lt_trans hab hba) (List.lt_irrefl _)⟩
  exact hxs.eq_of_mem_iff hys hmem

/-! ### Fronts of texts -/

/-- Bytes that start with a character start with no other one. -/
theorem utf8EncodeChar_append_inj {c d : Char} {xs ys : List UInt8}
    (h : String.utf8EncodeChar c ++ xs = String.utf8EncodeChar d ++ ys) : c = d ∧ xs = ys := by
  rcases lt_trichotomy c d with hcd | rfl | hdc
  · have hlt := utf8EncodeChar_append_lt hcd xs ys
    rw [h] at hlt
    exact absurd hlt (List.lt_irrefl _)
  · exact ⟨rfl, List.append_cancel_left h⟩
  · have hlt := utf8EncodeChar_append_lt hdc ys xs
    rw [h] at hlt
    exact absurd hlt (List.lt_irrefl _)

theorem flatMap_utf8EncodeChar_prefix_iff {cs ds : List Char} :
    cs.flatMap String.utf8EncodeChar <+: ds.flatMap String.utf8EncodeChar ↔ cs <+: ds := by
  constructor
  · intro h
    induction cs generalizing ds with
    | nil => exact List.nil_prefix
    | cons c cs ih =>
      obtain ⟨rest, h⟩ := h
      rw [List.flatMap_cons, List.append_assoc] at h
      cases ds with
      | nil =>
        obtain ⟨hc, -⟩ := List.append_eq_nil_iff.1 h
        exact absurd hc (utf8EncodeChar_ne_nil c)
      | cons d ds =>
        rw [List.flatMap_cons] at h
        obtain ⟨rfl, hrest⟩ := utf8EncodeChar_append_inj h
        exact List.cons_prefix_cons.2 ⟨rfl, ih ⟨rest, hrest⟩⟩
  · rintro ⟨rest, rfl⟩
    rw [List.flatMap_append]
    exact List.prefix_append _ _

/-- The bytes of a text start with those of another one exactly if its characters do. -/
theorem bytes_prefix_bytes_iff {s t : String} : bytes s <+: bytes t ↔ s.toList <+: t.toList := by
  rw [bytes_eq_flatMap, bytes_eq_flatMap]
  exact flatMap_utf8EncodeChar_prefix_iff

end Workplane
