import Mathlib.Computability.Language
import Workplane.Name

/-!
# The grammar of names

A name is a letter that letters, digits and dashes may follow up to a letter or a digit; the name of
an environment variable is a letter or an underscore that letters, digits and underscores follow.
Both are regular languages (`Name.grammar`, `Name.envGrammar`), and each of them is described by the
classes of its first, its last and all of its characters (`Name.mem_grammar_iff`,
`Name.mem_envGrammar_iff`).  The checks accept these texts and no others (`Name.validate_eq_ok_iff`,
`Name.validateEnv_eq_ok_iff`); only the first one also bounds the number of bytes.
-/

namespace Workplane.Name

open Computability

/-! ### Characters -/

/-- A letter from a to z, of either case. -/
def IsLetter (c : Char) : Prop :=
  'a' ≤ c ∧ c ≤ 'z' ∨ 'A' ≤ c ∧ c ≤ 'Z'

/-- A decimal digit. -/
def IsDigit (c : Char) : Prop :=
  '0' ≤ c ∧ c ≤ '9'

instance (c : Char) : Decidable (IsLetter c) :=
  inferInstanceAs (Decidable (_ ∨ _))

instance (c : Char) : Decidable (IsDigit c) :=
  inferInstanceAs (Decidable (_ ∧ _))

theorem isAlpha_iff {c : Char} : c.isAlpha = true ↔ IsLetter c := by
  unfold Char.isAlpha Char.isUpper Char.isLower IsLetter
  simp only [Bool.or_eq_true, Bool.and_eq_true, decide_eq_true_eq]
  exact or_comm

theorem isAlphanum_iff {c : Char} : c.isAlphanum = true ↔ IsLetter c ∨ IsDigit c := by
  unfold Char.isAlphanum
  rw [Bool.or_eq_true, isAlpha_iff]
  unfold Char.isDigit IsDigit
  simp only [Bool.and_eq_true, decide_eq_true_eq]
  exact Iff.rfl

theorem not_isLetter_dash : ¬IsLetter '-' := by
  decide

theorem not_isDigit_dash : ¬IsDigit '-' := by
  decide

/-! ### Texts -/

/-- What a name looks like, apart from its length. -/
structure WellFormed (cs : List Char) : Prop where
  first : ∃ c, cs.head? = some c ∧ IsLetter c
  last : ∃ c, cs.getLast? = some c ∧ (IsLetter c ∨ IsDigit c)
  all : ∀ c ∈ cs, IsLetter c ∨ IsDigit c ∨ c = '-'

/-- What the name of an environment variable looks like. -/
structure WellFormedEnv (cs : List Char) : Prop where
  first : ∃ c, cs.head? = some c ∧ (IsLetter c ∨ c = '_')
  others : ∀ c ∈ cs.tail, IsLetter c ∨ IsDigit c ∨ c = '_'

theorem getLast?_eq_lastChar (c : Char) (rest : List Char) :
    (c :: rest).getLast? = some (lastChar c rest) := by
  induction rest generalizing c with
  | nil => rfl
  | cons d rest ih => rw [List.getLast?_cons_cons, ih, lastChar]

/-- The scanner accepts exactly the well-formed names. -/
theorem isName_iff {cs : List Char} : isName cs = true ↔ WellFormed cs := by
  cases cs with
  | nil =>
    simp only [isName, Bool.false_eq_true, false_iff]
    intro h
    obtain ⟨c, hc, -⟩ := h.first
    simp at hc
  | cons c rest =>
    have hlast := getLast?_eq_lastChar c rest
    simp only [isName, Bool.and_eq_true, List.all_eq_true, bne_iff_ne, ne_eq, Bool.or_eq_true,
      beq_iff_eq, isAlpha_iff, isAlphanum_iff, or_assoc]
    constructor
    · rintro ⟨⟨hfirst, hrest⟩, hdash⟩
      have hall : ∀ d ∈ c :: rest, IsLetter d ∨ IsDigit d ∨ d = '-' := by
        intro d hd
        rcases List.mem_cons.1 hd with rfl | hd
        · exact Or.inl hfirst
        · exact hrest d hd
      refine ⟨⟨c, rfl, hfirst⟩, ⟨_, hlast, ?_⟩, hall⟩
      rcases hall _ (List.mem_of_getLast? hlast) with h | h | h
      · exact Or.inl h
      · exact Or.inr h
      · exact absurd h hdash
    · intro h
      obtain ⟨d, hd, hfirst⟩ := h.first
      obtain rfl : c = d := by simpa using hd
      obtain ⟨e, he, hend⟩ := h.last
      rw [hlast, Option.some.injEq] at he
      refine ⟨⟨hfirst, fun d hd => h.all d (List.mem_cons_of_mem c hd)⟩, ?_⟩
      intro hdash
      rw [← he, hdash] at hend
      exact hend.elim not_isLetter_dash not_isDigit_dash

theorem isEnvName_iff {cs : List Char} : isEnvName cs = true ↔ WellFormedEnv cs := by
  cases cs with
  | nil =>
    simp only [isEnvName, Bool.false_eq_true, false_iff]
    intro h
    obtain ⟨c, hc, -⟩ := h.first
    simp at hc
  | cons c rest =>
    simp only [isEnvName, Bool.and_eq_true, List.all_eq_true, Bool.or_eq_true, beq_iff_eq,
      isAlpha_iff, isAlphanum_iff, or_assoc]
    constructor
    · rintro ⟨hfirst, hrest⟩
      exact ⟨⟨c, rfl, hfirst⟩, hrest⟩
    · intro h
      obtain ⟨d, hd, hfirst⟩ := h.first
      obtain rfl : c = d := by simpa using hd
      exact ⟨hfirst, h.others⟩

/-! ### Languages -/

/-- The texts of a single character of a class. -/
def oneOf (p : Char → Prop) : Language Char :=
  {cs | ∃ c, p c ∧ cs = [c]}

/-- The names: `[a-zA-Z]([-a-zA-Z0-9]*[a-zA-Z0-9])?`. -/
def grammar : Language Char :=
  oneOf IsLetter *
    (1 + (oneOf fun c => IsLetter c ∨ IsDigit c ∨ c = '-')∗ * oneOf fun c => IsLetter c ∨ IsDigit c)

/-- The names of environment variables: `[A-Za-z_][A-Za-z0-9_]*`. -/
def envGrammar : Language Char :=
  (oneOf fun c => IsLetter c ∨ c = '_') * (oneOf fun c => IsLetter c ∨ IsDigit c ∨ c = '_')∗

theorem mem_oneOf {p : Char → Prop} {cs : List Char} : cs ∈ oneOf p ↔ ∃ c, p c ∧ cs = [c] :=
  Iff.rfl

theorem mem_kstar_oneOf {p : Char → Prop} {cs : List Char} :
    cs ∈ (oneOf p)∗ ↔ ∀ c ∈ cs, p c := by
  rw [Language.mem_kstar]
  constructor
  · rintro ⟨parts, rfl, hparts⟩ c hc
    obtain ⟨part, hpart, hc⟩ := List.mem_flatten.1 hc
    obtain ⟨d, hd, rfl⟩ := mem_oneOf.1 (hparts part hpart)
    rwa [List.mem_singleton.1 hc]
  · intro h
    refine ⟨cs.map fun c => [c], ?_, ?_⟩
    · rw [← List.flatMap_def, List.flatMap_singleton']
    · intro part hpart
      obtain ⟨c, hc, rfl⟩ := List.mem_map.1 hpart
      exact mem_oneOf.2 ⟨c, h c hc, rfl⟩

/-- A word that begins with a class of characters. -/
theorem mem_oneOf_mul {p : Char → Prop} {l : Language Char} {cs : List Char} :
    cs ∈ oneOf p * l ↔ ∃ c rest, cs = c :: rest ∧ p c ∧ rest ∈ l := by
  rw [Language.mem_mul]
  constructor
  · rintro ⟨_, ⟨c, hc, rfl⟩, rest, hrest, rfl⟩
    exact ⟨c, rest, rfl, hc, hrest⟩
  · rintro ⟨c, rest, rfl, hc, hrest⟩
    exact ⟨[c], ⟨c, hc, rfl⟩, rest, hrest, rfl⟩

theorem mem_mul_oneOf {p : Char → Prop} {l : Language Char} {cs : List Char} :
    cs ∈ l * oneOf p ↔ ∃ front c, cs = front ++ [c] ∧ front ∈ l ∧ p c := by
  rw [Language.mem_mul]
  constructor
  · rintro ⟨front, hfront, _, ⟨c, hc, rfl⟩, rfl⟩
    exact ⟨front, c, rfl, hfront, hc⟩
  · rintro ⟨front, c, rfl, hfront, hc⟩
    exact ⟨front, hfront, [c], ⟨c, hc, rfl⟩, rfl⟩

/-- The words of the grammar are the well-formed names. -/
theorem mem_grammar_iff {cs : List Char} : cs ∈ grammar ↔ WellFormed cs := by
  unfold grammar
  simp only [mem_oneOf_mul, Language.mem_add, Language.mem_one, mem_mul_oneOf, mem_kstar_oneOf]
  constructor
  · rintro ⟨c, rest, rfl, hfirst, hrest⟩
    rcases hrest with rfl | ⟨front, d, rfl, hfront, hlast⟩
    · refine ⟨⟨c, rfl, hfirst⟩, ⟨c, rfl, Or.inl hfirst⟩, ?_⟩
      intro d hd
      rw [List.mem_singleton.1 hd]
      exact Or.inl hfirst
    · refine ⟨⟨c, rfl, hfirst⟩, ⟨d, List.getLast?_concat (l := c :: front), hlast⟩, ?_⟩
      intro e he
      rw [List.mem_cons, List.mem_append, List.mem_singleton] at he
      rcases he with rfl | he | rfl
      · exact Or.inl hfirst
      · exact hfront e he
      · exact hlast.imp_right Or.inl
  · intro h
    obtain ⟨c, hc, hfirst⟩ := h.first
    obtain ⟨rest, rfl⟩ : ∃ rest, cs = c :: rest := List.head?_eq_some_iff.1 hc
    refine ⟨c, rest, rfl, hfirst, ?_⟩
    -- The last character stands on its own only if it is not the first one.
    rcases List.eq_nil_or_concat rest with rfl | ⟨front, d, rfl⟩
    · exact Or.inl rfl
    · refine Or.inr ⟨front, d, by simp, ?_, ?_⟩
      · intro e he
        exact h.all e (by simp [he])
      · obtain ⟨e, he, hlast⟩ := h.last
        rw [List.concat_eq_append, ← List.cons_append, List.getLast?_concat] at he
        obtain rfl := Option.some.inj he
        exact hlast

theorem mem_envGrammar_iff {cs : List Char} : cs ∈ envGrammar ↔ WellFormedEnv cs := by
  unfold envGrammar
  simp only [mem_oneOf_mul, mem_kstar_oneOf]
  constructor
  · rintro ⟨c, rest, rfl, hfirst, hrest⟩
    exact ⟨⟨c, rfl, hfirst⟩, hrest⟩
  · intro h
    obtain ⟨c, hc, hfirst⟩ := h.first
    obtain ⟨rest, rfl⟩ : ∃ rest, cs = c :: rest := List.head?_eq_some_iff.1 hc
    exact ⟨c, rest, rfl, hfirst, h.others⟩

/-! ### The checks -/

/-- A name is valid exactly if it has one to thirty-two bytes and is well formed. -/
theorem validate_eq_ok_iff {name : String} :
    validate name = .ok () ↔
      1 ≤ name.utf8ByteSize ∧ name.utf8ByteSize ≤ 32 ∧ WellFormed name.toList := by
  unfold validate maxBytes
  rw [← isName_iff]
  by_cases hsize : name.utf8ByteSize = 0 ∨ 32 < name.utf8ByteSize
  · rw [if_pos hsize]
    simp only [reduceCtorEq, false_iff]
    omega
  · rw [if_neg hsize]
    have hbounds : 1 ≤ name.utf8ByteSize ∧ name.utf8ByteSize ≤ 32 := by omega
    by_cases hname : isName name.toList = true
    · simp [hname, hbounds]
    · simp [hname]

/-- A name of a variable is valid exactly if it is well formed and not reserved. -/
theorem validateEnv_eq_ok_iff {name : String} :
    validateEnv name = .ok () ↔
      WellFormedEnv name.toList ∧ ¬∃ rest, name = "LEPTON_" ++ rest := by
  have hprefix : reservedPrefix.toList.isPrefixOf name.toList = true ↔
      ∃ rest, name = "LEPTON_" ++ rest := by
    rw [List.isPrefixOf_iff_prefix]
    constructor
    · rintro ⟨rest, h⟩
      refine ⟨String.ofList rest, String.toList_inj.1 ?_⟩
      rw [String.toList_append, ← h]
      exact congrArg (reservedPrefix.toList ++ ·) String.toList_ofList.symm
    · rintro ⟨rest, rfl⟩
      refine ⟨rest.toList, ?_⟩
      rw [String.toList_append]
      rfl
  unfold validateEnv
  rw [← isEnvName_iff, ← hprefix]
  by_cases hname : isEnvName name.toList = true
  · by_cases hreserved : reservedPrefix.toList.isPrefixOf name.toList = true
    · simp [hname, hreserved]
    · simp [hname, hreserved]
  · simp [hname]

end Workplane.Name
