import Mathlib.Data.List.Forall2
import Mathlib.Data.String.Basic
import Workplane.Proofs.Names.Grammar
import Workplane.Proofs.Objects.PhotonIds

/-!
# Names and identifiers

The identifiers that are derived from an accepted name are parts of keys, so they must not hold a
character that means something there.  Lower case keeps the class of every character
(`Name.wellFormed_toLower`) and its number of bytes, so the identifier of a deployment is a name
again; two names share it exactly if they are equal up to case (`Name.deploymentId_eq_iff`).  The
identifier of a photon adds a dash and hexadecimal digits (`Photon.isSafe_idOf`).  The main statement
is `Name.names_exact`.
-/

namespace Workplane

namespace Name

/-! ### Case -/

/-- The same character, or the same letter in the other case: the codes of the two cases are 32
apart. -/
def SameUpToCase (c d : Char) : Prop :=
  c = d ∨ IsLetter c ∧ IsLetter d ∧ (c.toNat = d.toNat + 32 ∨ d.toNat = c.toNat + 32)

instance (c d : Char) : Decidable (SameUpToCase c d) :=
  inferInstanceAs (Decidable (_ ∨ _))

theorem isLetter_iff_toNat {c : Char} :
    IsLetter c ↔ 97 ≤ c.toNat ∧ c.toNat ≤ 122 ∨ 65 ≤ c.toNat ∧ c.toNat ≤ 90 :=
  Iff.rfl

theorem isDigit_iff_toNat {c : Char} : IsDigit c ↔ 48 ≤ c.toNat ∧ c.toNat ≤ 57 :=
  Iff.rfl

/-- Only the capital letters of the alphabet are lowered. -/
theorem toNat_toLower (c : Char) :
    c.toLower.toNat = if 65 ≤ c.toNat ∧ c.toNat ≤ 90 then c.toNat + 32 else c.toNat := by
  unfold Char.toLower
  by_cases h : c.val ≥ 'A'.val ∧ c.val ≤ 'Z'.val
  · have hcode : 65 ≤ c.toNat ∧ c.toNat ≤ 90 := h
    rw [dif_pos h, if_pos hcode]
    show (c.val + 32).toNat = c.val.toNat + 32
    rw [UInt32.toNat_add]
    have hval : c.val.toNat = c.toNat := rfl
    show (c.val.toNat + 32) % 2 ^ 32 = c.val.toNat + 32
    omega
  · have hcode : ¬(65 ≤ c.toNat ∧ c.toNat ≤ 90) := h
    rw [dif_neg h, if_neg hcode]

/-- Two characters are lowered to the same one if they differ at most in case. -/
theorem toLower_eq_iff {c d : Char} : c.toLower = d.toLower ↔ SameUpToCase c d := by
  unfold SameUpToCase
  rw [← Char.toNat_inj, ← Char.toNat_inj, toNat_toLower, toNat_toLower, isLetter_iff_toNat,
    isLetter_iff_toNat]
  by_cases hc : 65 ≤ c.toNat ∧ c.toNat ≤ 90
  · by_cases hd : 65 ≤ d.toNat ∧ d.toNat ≤ 90
    · rw [if_pos hc, if_pos hd]
      omega
    · rw [if_pos hc, if_neg hd]
      omega
  · by_cases hd : 65 ≤ d.toNat ∧ d.toNat ≤ 90
    · rw [if_neg hc, if_pos hd]
      omega
    · rw [if_neg hc, if_neg hd]
      omega

theorem utf8Size_toLower (c : Char) : c.toLower.utf8Size = c.utf8Size := by
  by_cases h : 65 ≤ c.toNat ∧ c.toNat ≤ 90
  · have hlower := toNat_toLower c
    rw [if_pos h] at hlower
    have hone {d : Char} (hd : d.toNat ≤ 127) : d.utf8Size = 1 := Char.utf8Size_eq_one_iff.2 hd
    rw [hone (d := c.toLower) (by omega), hone (d := c) (by omega)]
  · have hsame : c.toLower = c := by
      rw [← Char.toNat_inj, toNat_toLower, if_neg h]
    rw [hsame]

theorem isLetter_toLower {c : Char} (h : IsLetter c) : 'a' ≤ c.toLower ∧ c.toLower ≤ 'z' := by
  show 97 ≤ c.toLower.toNat ∧ c.toLower.toNat ≤ 122
  rw [isLetter_iff_toNat] at h
  rw [toNat_toLower]
  by_cases hupper : 65 ≤ c.toNat ∧ c.toNat ≤ 90
  · rw [if_pos hupper]
    omega
  · rw [if_neg hupper]
    omega

theorem toLower_of_isDigit {c : Char} (h : IsDigit c) : c.toLower = c := by
  rw [isDigit_iff_toNat] at h
  rw [← Char.toNat_inj, toNat_toLower, if_neg (by omega)]

/-- What is in lower case stays as it is. -/
theorem toLower_toLower (c : Char) : c.toLower.toLower = c.toLower := by
  rw [← Char.toNat_inj, toNat_toLower c.toLower, toNat_toLower c]
  by_cases h : 65 ≤ c.toNat ∧ c.toNat ≤ 90
  · rw [if_pos h, if_neg (by omega)]
  · rw [if_neg h, if_neg h]

/-! ### Identifiers of deployments -/

/-- Only small letters, digits and dashes. -/
def IsSafe (id : String) : Prop :=
  ∀ c ∈ id.toList, 'a' ≤ c ∧ c ≤ 'z' ∨ IsDigit c ∨ c = '-'

/-- A safe identifier can be a part of a path and of a host name. -/
theorem IsSafe.notMem {id : String} (h : IsSafe id) : '/' ∉ id.toList ∧ '.' ∉ id.toList := by
  constructor
  · intro hslash
    exact absurd (h '/' hslash) (by decide)
  · intro hpoint
    exact absurd (h '.' hpoint) (by decide)

theorem toList_deploymentId (name : String) :
    (deploymentId name).toList = name.toList.map Char.toLower :=
  String.toList_map

/-- An identifier is as long as the name. -/
theorem utf8ByteSize_deploymentId (name : String) :
    (deploymentId name).utf8ByteSize = name.utf8ByteSize := by
  rw [← String.utf8Len_toList, ← String.utf8Len_toList, toList_deploymentId]
  induction name.toList with
  | nil => rfl
  | cons c cs ih => rw [List.map_cons, String.utf8Len_cons, String.utf8Len_cons, ih,
      utf8Size_toLower]

theorem wellFormed_toLower {cs : List Char} (h : WellFormed cs) :
    WellFormed (cs.map Char.toLower) := by
  have hletter {c : Char} (hc : IsLetter c) : IsLetter c.toLower := Or.inl (isLetter_toLower hc)
  have hdigit {c : Char} (hc : IsDigit c) : IsDigit c.toLower := by
    rwa [toLower_of_isDigit hc]
  obtain ⟨first, hfirst, hf⟩ := h.first
  obtain ⟨last, hlast, hl⟩ := h.last
  refine ⟨⟨first.toLower, ?_, hletter hf⟩, ⟨last.toLower, ?_, hl.imp hletter hdigit⟩, ?_⟩
  · rw [List.head?_map, hfirst]
    rfl
  · rw [List.getLast?_map, hlast]
    rfl
  · intro d hd
    obtain ⟨c, hc, rfl⟩ := List.mem_map.1 hd
    rcases h.all c hc with hc | hc | rfl
    · exact Or.inl (hletter hc)
    · exact Or.inr (Or.inl (hdigit hc))
    · exact Or.inr (Or.inr rfl)

/-- The identifier that a valid name gives is a valid name. -/
theorem validate_deploymentId {name : String} (h : validate name = .ok ()) :
    validate (deploymentId name) = .ok () := by
  rw [validate_eq_ok_iff] at h ⊢
  rw [utf8ByteSize_deploymentId, toList_deploymentId]
  exact ⟨h.1, h.2.1, wellFormed_toLower h.2.2⟩

/-- An identifier is its own identifier. -/
theorem deploymentId_deploymentId (name : String) :
    deploymentId (deploymentId name) = deploymentId name := by
  rw [← String.toList_inj, toList_deploymentId, toList_deploymentId, List.map_map]
  congr 1
  funext c
  exact toLower_toLower c

/-- The identifier that a valid name gives is safe. -/
theorem isSafe_deploymentId {name : String} (h : validate name = .ok ()) :
    IsSafe (deploymentId name) := by
  have hname := (validate_eq_ok_iff.1 h).2.2
  intro d hd
  rw [toList_deploymentId] at hd
  obtain ⟨c, hc, rfl⟩ := List.mem_map.1 hd
  rcases hname.all c hc with hc | hc | rfl
  · exact Or.inl (isLetter_toLower hc)
  · rw [toLower_of_isDigit hc]
    exact Or.inr (Or.inl hc)
  · exact Or.inr (Or.inr rfl)

/-- Names have the same identifier exactly if they are equal up to case. -/
theorem deploymentId_eq_iff {name name' : String} :
    deploymentId name = deploymentId name' ↔
      List.Forall₂ SameUpToCase name.toList name'.toList := by
  rw [← String.toList_inj, toList_deploymentId, toList_deploymentId, ← List.forall₂_eq_eq_eq,
    List.forall₂_map_left_iff, List.forall₂_map_right_iff]
  simp only [toLower_eq_iff]

end Name

/-! ### Identifiers of photons -/

theorem Hex.isSafe_digit {n : Nat} (h : n < 16) :
    'a' ≤ digit n ∧ digit n ≤ 'z' ∨ Name.IsDigit (digit n) := by
  have : ∀ k : Fin 16,
      'a' ≤ digit k ∧ digit k ≤ 'z' ∨ Name.IsDigit (digit k) := by decide
  exact this ⟨n, h⟩

/-- The identifier of a photon with a valid name is safe. -/
theorem Photon.isSafe_idOf {s : Photon.Spec} (h : Name.validate s.name = .ok ()) :
    Name.IsSafe (Photon.idOf s) := by
  intro c hc
  rw [toList_idOf, List.mem_append, List.mem_cons] at hc
  rcases hc with hc | rfl | hc
  · exact Name.isSafe_deploymentId h c hc
  · exact Or.inr (Or.inr rfl)
  · obtain ⟨b, -, hb⟩ := List.mem_flatMap.1 hc
    have hlt : b.toNat < 256 := b.toNat_lt_size
    have hdigit : ∃ n, n < 16 ∧ c = Hex.digit n := by
      simp only [Hex.ofByte, List.mem_cons, List.not_mem_nil, or_false] at hb
      rcases hb with rfl | rfl
      · exact ⟨_, by omega, rfl⟩
      · exact ⟨_, by omega, rfl⟩
    obtain ⟨n, hn, rfl⟩ := hdigit
    exact (Hex.isSafe_digit hn).imp_right Or.inl

namespace Name

/-- Names and names of environment variables are accepted by exactly their grammars, which are the
languages of two regular expressions.  What is derived from an accepted name holds only small
letters, digits and dashes; the identifier of a deployment is an accepted name and its own
identifier, and it is shared by the names that are equal up to case. -/
theorem names_exact :
    (∀ name, validate name = .ok () ↔
      1 ≤ name.utf8ByteSize ∧ name.utf8ByteSize ≤ 32 ∧ WellFormed name.toList) ∧
    (∀ cs, cs ∈ grammar ↔ WellFormed cs) ∧
    (∀ name, validateEnv name = .ok () ↔
      WellFormedEnv name.toList ∧ ¬∃ rest, name = "LEPTON_" ++ rest) ∧
    (∀ cs, cs ∈ envGrammar ↔ WellFormedEnv cs) ∧
    (∀ name, validate name = .ok () →
      IsSafe (deploymentId name) ∧ validate (deploymentId name) = .ok () ∧
        deploymentId (deploymentId name) = deploymentId name) ∧
    (∀ s : Photon.Spec, validate s.name = .ok () → IsSafe (Photon.idOf s)) ∧
    (∀ id, IsSafe id → '/' ∉ id.toList ∧ '.' ∉ id.toList) ∧
    (∀ name name', validate name = .ok () → validate name' = .ok () →
      (deploymentId name = deploymentId name' ↔
        List.Forall₂ SameUpToCase name.toList name'.toList)) := by
  refine ⟨fun _ => validate_eq_ok_iff, fun _ => mem_grammar_iff, fun _ => validateEnv_eq_ok_iff,
    fun _ => mem_envGrammar_iff, ?_, fun _ => Photon.isSafe_idOf, fun _ => IsSafe.notMem, ?_⟩
  · intro name h
    exact ⟨isSafe_deploymentId h, validate_deploymentId h, deploymentId_deploymentId name⟩
  · intro name name' _ _
    exact deploymentId_eq_iff

/-- Two names that differ in case are both valid and share their identifier. -/
theorem names_exact_mixedCase :
    validate "Gpt-2" = .ok () ∧ validate "gPT-2" = .ok () ∧
      validate (deploymentId "Gpt-2") = .ok () ∧ deploymentId "Gpt-2" = deploymentId "gPT-2" := by
  obtain ⟨-, -, -, -, hid, -, -, hcase⟩ := names_exact
  have h : validate "Gpt-2" = .ok () := by decide
  have h' : validate "gPT-2" = .ok () := by decide
  exact ⟨h, h', (hid _ h).2.1, (hcase _ _ h h').2 (by decide)⟩

end Name

end Workplane
