import Workplane.Proofs.Replica.Procedure

/-!
# Masked addresses

The pattern of addresses as a grammar (`Dotted`) with a word boundary on each side (`IsBoundary`):
`IsAddress u a v` says that `a` is an address where it stands in a text, between `u` and `v`.
`Masks` describes how a text is masked: from left to right, an address that starts where no earlier
one ends is replaced, and every other character is kept.

`maskAll` masks in this way and in no other (`maskAll_eq_iff`), so it replaces disjoint addresses
of the text and keeps all else in its order.  What is left holds no address, judged by the
boundaries that it has after the replacement (`Masks.clean`): an address consists of digits and
points only, so it would lie between two masks; there it has the neighbours that it had in the text,
except right beside a mask, where no digit stands.  Hence masking once more changes nothing.
-/

namespace Workplane

/-! ### Digits and words -/

/-- Every range of digits lies within a range of characters of words. -/
theorem Text.exists_wordRange : ∀ r ∈ Text.digitRanges.toList,
    Text.wordRanges.toList.any (fun w => w.1 ≤ r.1 && r.2 ≤ w.2) = true := by
  decide +kernel

theorem Text.isWordChar_of_isDigit {c : Char} (h : Text.isDigit c = true) :
    Text.isWordChar c = true := by
  unfold isDigit at h
  unfold isWordChar
  by_cases hascii : c.toNat < 0x80
  · rw [if_pos hascii] at h ⊢
    simp [Char.isAlphanum, h]
  · rw [if_neg hascii] at h ⊢
    unfold inRanges at h ⊢
    rw [← Array.any_toList, List.any_eq_true] at h ⊢
    obtain ⟨r, hr, hin⟩ := h
    obtain ⟨w, hw, hsub⟩ := List.any_eq_true.1 (exists_wordRange r hr)
    refine ⟨w, hw, ?_⟩
    simp only [Bool.and_eq_true, decide_eq_true_eq] at hin hsub ⊢
    omega

namespace Address

/-! ### The pattern -/

/-- One to three digits. -/
structure IsGroup (g : List Char) : Prop where
  ne_nil : g ≠ []
  length_le : g.length ≤ 3
  digits : ∀ c ∈ g, Text.isDigit c = true

/-- As many groups with a point after each as the number says, and a last group. -/
inductive Dotted : Nat → List Char → Prop
  | last {g : List Char} (group : IsGroup g) : Dotted 0 g
  | point {n : Nat} {g a : List Char} (group : IsGroup g) (groups : Dotted n a) :
    Dotted (n + 1) (g ++ '.' :: a)

/-- Between two neighbours a word begins or ends; at the end of a text there is no neighbour. -/
def IsBoundary (before after : Option Char) : Prop :=
  before.any Text.isWordChar ≠ after.any Text.isWordChar

/-- The part `a` of the text `u ++ a ++ v` is an address. -/
structure IsAddress (u a v : List Char) : Prop where
  dotted : Dotted 3 a
  left : IsBoundary u.getLast? (a ++ v).head?
  right : IsBoundary (u ++ a).getLast? v.head?

/-- No part of the text is an address. -/
def Clean (s : List Char) : Prop :=
  ∀ u a v, s = u ++ a ++ v → ¬IsAddress u a v

/-- After the text `u`, the text `s` is masked as `t`: an address that starts at its front is
replaced, and if there is none, the first character is kept. -/
inductive Masks : List Char → List Char → List Char → Prop
  | nil (u : List Char) : Masks u [] []
  | keep {u rest t : List Char} {c : Char} (free : ∀ a v, c :: rest = a ++ v → ¬IsAddress u a v)
    (h : Masks (u ++ [c]) rest t) : Masks u (c :: rest) (c :: t)
  | replace {u a rest t : List Char} (address : IsAddress u a rest) (h : Masks (u ++ a) rest t) :
    Masks u (a ++ rest) (mask ++ t)

/-! ### The shape of addresses -/

section Shape

variable {n : Nat} {u a v : List Char}

theorem IsGroup.exists_cons {g : List Char} (h : IsGroup g) :
    ∃ c rest, g = c :: rest ∧ Text.isDigit c = true := by
  obtain ⟨c, rest, rfl⟩ := List.exists_cons_of_ne_nil h.ne_nil
  exact ⟨c, rest, rfl, h.digits c (.head rest)⟩

theorem IsGroup.exists_concat {g : List Char} (h : IsGroup g) :
    ∃ front c, g = front ++ [c] ∧ Text.isDigit c = true := by
  refine ⟨g.dropLast, g.getLast h.ne_nil, (List.dropLast_append_getLast h.ne_nil).symm, ?_⟩
  exact h.digits _ (List.getLast_mem h.ne_nil)

/-- An address begins with a digit. -/
theorem Dotted.exists_cons (h : Dotted n a) : ∃ c rest, a = c :: rest ∧ Text.isDigit c = true := by
  cases h with
  | last group => exact group.exists_cons
  | @point n g a group groups =>
    obtain ⟨c, rest, rfl, hc⟩ := group.exists_cons
    exact ⟨c, rest ++ '.' :: a, rfl, hc⟩

/-- An address ends with a digit. -/
theorem Dotted.exists_concat (h : Dotted n a) :
    ∃ front c, a = front ++ [c] ∧ Text.isDigit c = true := by
  induction h with
  | last group => exact group.exists_concat
  | @point n g a group groups ih =>
    obtain ⟨front, c, rfl, hc⟩ := ih
    exact ⟨g ++ '.' :: front, c, by simp, hc⟩

/-- An address consists of digits and points. -/
theorem Dotted.isDigit_or_eq (h : Dotted n a) {c : Char} (hc : c ∈ a) :
    Text.isDigit c = true ∨ c = '.' := by
  induction h with
  | last group => exact Or.inl (group.digits c hc)
  | point group groups ih =>
    rcases List.mem_append.1 hc with hc | hc
    · exact Or.inl (group.digits c hc)
    · rcases List.mem_cons.1 hc with rfl | hc
      · exact Or.inr rfl
      · exact ih hc

/-- Since an address begins and ends with a digit, the characters beside it are no characters of
words. -/
theorem isAddress_iff : IsAddress u a v ↔ Dotted 3 a ∧ u.getLast?.any Text.isWordChar = false ∧
    v.head?.any Text.isWordChar = false := by
  -- Both ends of an address are characters of words.
  have sides (h : Dotted 3 a) : (a ++ v).head?.any Text.isWordChar = true ∧
      (u ++ a).getLast?.any Text.isWordChar = true := by
    obtain ⟨c, rest, hfirst, hc⟩ := h.exists_cons
    obtain ⟨front, d, hlast, hd⟩ := h.exists_concat
    refine ⟨?_, ?_⟩
    · rw [hfirst]
      exact Text.isWordChar_of_isDigit hc
    · rw [hlast, ← List.append_assoc, List.getLast?_concat]
      exact Text.isWordChar_of_isDigit hd
  constructor
  · intro h
    obtain ⟨hhead, hlast⟩ := sides h.dotted
    have hleft := h.left
    have hright := h.right
    unfold IsBoundary at hleft hright
    rw [hhead] at hleft
    rw [hlast] at hright
    exact ⟨h.dotted, by simpa using hleft, by simpa using hright⟩
  · rintro ⟨hdotted, hleft, hright⟩
    obtain ⟨hhead, hlast⟩ := sides hdotted
    refine ⟨hdotted, ?_, ?_⟩
    · unfold IsBoundary
      rw [hleft, hhead]
      decide
    · unfold IsBoundary
      rw [hright, hlast]
      decide

end Shape

/-! ### Addresses at the front of a text -/

section Front

variable {s rest : List Char}

/-- Where no word goes on, no number does. -/
theorem head?_any_isDigit_eq_false (h : rest.head?.any Text.isWordChar = false) :
    rest.head?.any Text.isDigit = false := by
  cases rest with
  | nil => rfl
  | cons c rest =>
    by_contra hdigit
    exact Bool.false_ne_true (h.symm.trans (Text.isWordChar_of_isDigit (by simpa using hdigit)))

/-- All digits of a run are taken, up to what is none. -/
theorem digits_append_of_forall {g : List Char} (hg : ∀ c ∈ g, Text.isDigit c = true)
    (hrest : rest.head?.any Text.isDigit = false) : digits (g ++ rest) = (g, rest) := by
  have hnone : rest.takeWhile Text.isDigit = [] ∧ rest.dropWhile Text.isDigit = rest := by
    cases rest with
    | nil => exact ⟨rfl, rfl⟩
    | cons c rest =>
      have hc : ¬Text.isDigit c = true := by simpa using hrest
      exact ⟨List.takeWhile_cons_of_neg hc, List.dropWhile_cons_of_neg hc⟩
  unfold digits
  rw [List.takeWhile_append_of_pos hg, List.dropWhile_append_of_pos hg, hnone.1, hnone.2,
    List.append_nil]

/-- A group at the front is the whole run of digits there. -/
theorem group_eq_some_iff : group s = some rest ↔
    ∃ g, s = g ++ rest ∧ IsGroup g ∧ rest.head?.any Text.isDigit = false := by
  constructor
  · intro h
    unfold group at h
    split at h
    rename_i ds after hdigits
    split at h
    · rename_i hlength
      obtain rfl := Option.some.inj h
      -- The scanner takes all digits that are there, so none follows.
      have hds : s.takeWhile Text.isDigit = ds := congrArg Prod.fst hdigits
      have hafter : s.dropWhile Text.isDigit = after := congrArg Prod.snd hdigits
      refine ⟨ds, ?_, ⟨?_, hlength.2, ?_⟩, ?_⟩
      · have happend := digits_append s
        rw [hdigits] at happend
        exact happend.symm
      · rintro rfl
        exact absurd hlength.1 (by decide)
      · intro c hc
        rw [← hds] at hc
        exact List.all_eq_true.1 List.all_takeWhile c hc
      · rw [← hafter]
        cases hrest : s.dropWhile Text.isDigit with
        | nil => rfl
        | cons c cs =>
          have := List.head?_dropWhile_not Text.isDigit s
          rw [hrest] at this
          simpa using this
    · exact nomatch h
  · rintro ⟨g, rfl, hg, hrest⟩
    have hpos : 1 ≤ g.length := List.length_pos_iff.2 hg.ne_nil
    unfold group
    rw [digits_append_of_forall hg.digits hrest]
    exact if_pos ⟨hpos, hg.length_le⟩

/-- Groups are read exactly if dotted ones stand there and the word ends after them. -/
theorem groups_eq_some_iff {n : Nat} : groups n s = some rest ↔
    ∃ a, s = a ++ rest ∧ Dotted n a ∧ rest.head?.any Text.isWordChar = false := by
  induction n generalizing s with
  | zero =>
    constructor
    · intro h
      obtain ⟨after, hafter, hlast⟩ := Option.bind_eq_some_iff.1 h
      obtain ⟨g, rfl, hg, -⟩ := group_eq_some_iff.1 hafter
      cases after with
      | nil =>
        obtain rfl := Option.some.inj hlast
        exact ⟨g, rfl, .last hg, rfl⟩
      | cons c after =>
        cases hc : Text.isWordChar c with
        | true => simp [hc] at hlast
        | false =>
          obtain rfl : c :: after = rest := by simpa [hc] using hlast
          exact ⟨g, rfl, .last hg, by simpa using hc⟩
    · rintro ⟨a, rfl, ⟨hg⟩, hrest⟩
      have hgroup := group_eq_some_iff.2 ⟨a, rfl, hg, head?_any_isDigit_eq_false hrest⟩
      refine Option.bind_eq_some_iff.2 ⟨rest, hgroup, ?_⟩
      cases rest with
      | nil => rfl
      | cons c rest =>
        have hc : Text.isWordChar c = false := by simpa using hrest
        simp [hc]
  | succ n ih =>
    constructor
    · intro h
      obtain ⟨after, hafter, hothers⟩ := Option.bind_eq_some_iff.1 h
      obtain ⟨g, rfl, hg, -⟩ := group_eq_some_iff.1 hafter
      split at hothers
      · obtain ⟨a, rfl, ha, hrest⟩ := ih.1 hothers
        exact ⟨g ++ '.' :: a, by simp, .point hg ha, hrest⟩
      · exact nomatch hothers
    · rintro ⟨a, rfl, ha, hrest⟩
      cases ha with
      | @point n g a hg ha =>
        -- The point ends the group, as it is no digit.
        have hpoint : ('.' :: (a ++ rest)).head?.any Text.isDigit = false := by
          show Text.isDigit '.' = false
          decide
        have hgroup := group_eq_some_iff.2 ⟨g, rfl, hg, hpoint⟩
        refine Option.bind_eq_some_iff.2 ⟨'.' :: (a ++ rest), by simpa using hgroup, ?_⟩
        exact ih.2 ⟨a, rfl, ha, hrest⟩

/-- A match is an address at the front. -/
theorem match?_eq_some_iff {u : List Char} :
    match? (u.getLast?.any Text.isWordChar) s = some rest ↔
      ∃ a, s = a ++ rest ∧ IsAddress u a rest := by
  unfold match?
  cases hu : u.getLast?.any Text.isWordChar with
  | true =>
    refine iff_of_false nofun ?_
    rintro ⟨a, -, h⟩
    rw [isAddress_iff, hu] at h
    exact Bool.false_ne_true h.2.1.symm
  | false =>
    simp only [Bool.false_eq_true, if_false, groups_eq_some_iff, isAddress_iff, hu, true_and]

/-- At most one address starts at a place. -/
theorem IsAddress.unique {u a a' v v' : List Char} (h : IsAddress u a v) (h' : IsAddress u a' v')
    (heq : a ++ v = a' ++ v') : a = a' ∧ v = v' := by
  have hv := match?_eq_some_iff.2 ⟨a, rfl, h⟩
  have hv' := match?_eq_some_iff.2 ⟨a', heq, h'⟩
  obtain rfl := Option.some.inj (hv.symm.trans hv')
  exact ⟨List.append_cancel_right heq, rfl⟩

end Front

/-! ### Masking from left to right -/

section Masks

variable {u s t : List Char}

/-- The characters of an address that was replaced are skipped. -/
theorem maskFrom_append (u a rest : List Char) :
    maskFrom (u.getLast?.any Text.isWordChar) a.length (a ++ rest) =
      maskFrom ((u ++ a).getLast?.any Text.isWordChar) 0 rest := by
  induction a generalizing u with
  | nil => rw [List.append_nil, List.nil_append, List.length_nil]
  | cons c a ih =>
    have hc : Text.isWordChar c = (u ++ [c]).getLast?.any Text.isWordChar := by
      rw [List.getLast?_concat, Option.any_some]
    rw [List.cons_append, List.length_cons, maskFrom, hc, ih, List.append_assoc,
      List.singleton_append]

/-- The scanner masks every address from where it stands. -/
theorem masks_maskFrom (u s : List Char) :
    Masks u s (maskFrom (u.getLast?.any Text.isWordChar) 0 s) := by
  induction hlength : s.length using Nat.strong_induction_on generalizing u s with
  | _ n ih =>
  cases s with
  | nil =>
    rw [maskFrom]
    exact .nil u
  | cons c rest =>
    rw [maskFrom]
    split
    · rename_i after hmatch
      obtain ⟨a, heq, haddress⟩ := match?_eq_some_iff.1 hmatch
      obtain ⟨d, a, rfl, -⟩ := haddress.dotted.exists_cons
      rw [List.cons_append] at heq
      obtain ⟨rfl, rfl⟩ := List.cons.inj heq
      -- What is left to skip is the rest of the address.
      have hskip : (a ++ after).length - after.length = a.length := by
        rw [List.length_append]
        omega
      have hlast : Text.isWordChar c = (u ++ [c]).getLast?.any Text.isWordChar := by
        rw [List.getLast?_concat, Option.any_some]
      have hshorter : after.length < n := by
        rw [← hlength, List.length_cons, List.length_append]
        omega
      rw [hskip, hlast, maskFrom_append, List.append_assoc]
      exact .replace haddress (ih _ hshorter _ _ rfl)
    · rename_i hmatch
      have hlast : Text.isWordChar c = (u ++ [c]).getLast?.any Text.isWordChar := by
        rw [List.getLast?_concat, Option.any_some]
      have hshorter : rest.length < n := by
        rw [← hlength, List.length_cons]
        omega
      rw [hlast]
      refine .keep (fun a v heq haddress => ?_) (ih _ hshorter _ _ rfl)
      rw [match?_eq_some_iff.2 ⟨a, heq, haddress⟩] at hmatch
      exact nomatch hmatch

/-- A text is masked in one way only. -/
theorem Masks.unique {t' : List Char} (h : Masks u s t) (h' : Masks u s t') : t = t' := by
  induction h generalizing t' with
  | nil u =>
    generalize hs : ([] : List Char) = s at h'
    cases h' with
    | nil => rfl
    | keep => exact nomatch hs
    | replace address =>
      obtain ⟨c, rest, rfl, -⟩ := address.dotted.exists_cons
      exact nomatch hs
  | @keep u rest t c free h ih =>
    generalize hs : c :: rest = s at h'
    cases h' with
    | nil => exact nomatch hs
    | keep _ h' =>
      obtain ⟨rfl, rfl⟩ := List.cons.inj hs
      rw [ih h']
    | replace address => exact absurd address (free _ _ hs)
  | @replace u a rest t address h ih =>
    generalize hs : a ++ rest = s at h'
    cases h' with
    | nil =>
      obtain ⟨c, a, rfl, -⟩ := address.dotted.exists_cons
      exact nomatch hs
    | keep free => exact absurd address (free _ _ hs.symm)
    | replace address' h' =>
      obtain ⟨rfl, rfl⟩ := address.unique address' hs
      rw [ih h']

/-! ### What is left -/

/-- Digits and points of a masked text were there before. -/
theorem Masks.exists_append {a v : List Char} (h : Masks u s (a ++ v))
    (ha : ∀ c ∈ a, Text.isDigit c = true ∨ c = '.') :
    ∃ rest, s = a ++ rest ∧ Masks (u ++ a) rest v := by
  induction a generalizing u s with
  | nil => exact ⟨s, rfl, by rwa [List.append_nil]⟩
  | cons c a ih =>
    rw [List.cons_append] at h
    generalize ht : c :: (a ++ v) = t at h
    cases h with
    | nil => exact nomatch ht
    | keep free h =>
      obtain ⟨rfl, rfl⟩ := List.cons.inj ht
      obtain ⟨rest, rfl, hrest⟩ := ih h fun d hd => ha d (.tail c hd)
      exact ⟨rest, rfl, by rwa [List.append_assoc] at hrest⟩
    | replace address h =>
      obtain rfl : c = '<' := (List.cons.inj ht).1
      exact absurd (ha '<' (.head a)) (by decide)

/-- Right after a character of a word, the next character is kept. -/
theorem Masks.head?_eq (h : Masks u s t) (hu : u.getLast?.any Text.isWordChar = true) :
    t.head? = s.head? := by
  cases h with
  | nil => rfl
  | keep => rfl
  | replace address =>
    rw [isAddress_iff, hu] at address
    exact nomatch address.2.1

/-- No address begins in what a text was masked as, where `p` is what stands before.  The left
neighbour has to be as it was, unless no word begins there. -/
theorem Masks.not_isAddress {p : List Char} (h : Masks u s t)
    (hp : p.getLast?.any Text.isWordChar = u.getLast?.any Text.isWordChar ∨
      s.head?.any Text.isWordChar = false) :
    ∀ x a v, t = x ++ a ++ v → ¬IsAddress (p ++ x) a v := by
  induction h generalizing p with
  | nil u =>
    intro x a v ht haddress
    obtain ⟨c, rest, rfl, -⟩ := haddress.dotted.exists_cons
    simp at ht
  | @keep u rest t c free h ih =>
    intro x a v ht haddress
    cases x with
    | cons d x =>
      obtain ⟨rfl, hrest⟩ := List.cons.inj ht
      refine ih (p := p ++ [c]) (Or.inl ?_) x a v hrest (by simpa using haddress)
      rw [List.getLast?_concat, List.getLast?_concat]
    | nil =>
      -- The address begins with the character that is kept, so it stands in the text as well.
      have hmasks : Masks u (c :: rest) (a ++ v) := ht ▸ .keep free h
      obtain ⟨after, hs, hafter⟩ :=
        hmasks.exists_append fun _ hd => haddress.dotted.isDigit_or_eq hd
      obtain ⟨hdotted, hleft, hright⟩ := isAddress_iff.1 haddress
      rw [List.append_nil] at hleft
      have hword : (u ++ a).getLast?.any Text.isWordChar = true := by
        obtain ⟨front, d, rfl, hd⟩ := hdotted.exists_concat
        rw [← List.append_assoc, List.getLast?_concat]
        exact Text.isWordChar_of_isDigit hd
      rw [hafter.head?_eq hword] at hright
      rcases hp with hp | hp
      · exact free a after hs (isAddress_iff.2 ⟨hdotted, hp ▸ hleft, hright⟩)
      · obtain ⟨d, front, rfl, hd⟩ := hdotted.exists_cons
        obtain ⟨rfl, -⟩ := List.cons.inj hs
        exact Bool.false_ne_true (hp.symm.trans (Text.isWordChar_of_isDigit hd))
  | @replace u a₀ rest t address h ih =>
    intro x a v ht haddress
    have hnext := (isAddress_iff.1 address).2.2
    obtain ⟨c, front, rfl, hc⟩ := haddress.dotted.exists_cons
    have hsplit : mask ++ t = x ++ (c :: front ++ v) := by rw [ht, List.append_assoc]
    rcases List.append_eq_append_iff.1 hsplit with ⟨x, rfl, hrest⟩ | ⟨m, hm, hrest⟩
    · refine ih (p := p ++ mask) (Or.inr hnext) x (c :: front) v ?_ ?_
      · rw [hrest, List.append_assoc]
      · rwa [List.append_assoc]
    · cases m with
      | nil =>
        rw [List.append_nil] at hm
        refine ih (p := p ++ mask) (Or.inr hnext) [] (c :: front) v hrest.symm ?_
        rwa [List.append_nil, hm]
      | cons d m =>
        -- The address would begin within the mask, where no digit is.
        obtain ⟨rfl, -⟩ := List.cons.inj hrest
        have hmask : mask.any Text.isDigit = false := by decide
        have hmem : c ∈ mask := by rw [hm]; simp
        exact absurd hc (List.any_eq_false.1 hmask c hmem)

/-- A masked text holds no address. -/
theorem Masks.clean (h : Masks [] s t) : Clean t :=
  fun u a v ht => h.not_isAddress (p := []) (Or.inl rfl) u a v ht

theorem clean_of_not_isDigit (h : s.any Text.isDigit = false) : Clean s := by
  rintro u a v rfl haddress
  obtain ⟨c, rest, rfl, hc⟩ := haddress.dotted.exists_cons
  have hmem : c ∈ u ++ c :: rest ++ v := by simp
  exact List.any_eq_false.1 h c hmem hc

end Masks

/-! ### Whole texts -/

/-- Masking replaces every address and nothing else. -/
theorem masks_maskAll (s : String) : Masks [] s.toList (maskAll s).toList := by
  rw [maskAll, String.toList_ofList]
  exact masks_maskFrom [] s.toList

/-- What is masked contains no address. -/
theorem clean_maskAll (s : String) : Clean (maskAll s).toList :=
  (masks_maskAll s).clean

end Address

/-! ### Messages of verdicts -/

namespace Readiness

open Address (Clean maskAll Masks)

/-- The message of a verdict on a warning of a failed probe holds no address. -/
theorem Cause.clean_of_yields_probe {e : Event} {r : Readiness} (h : Cause.probe.Yields e r) :
    Clean r.message.toList := by
  cases h
  exact Address.clean_maskAll e.note

/-- The messages of steps contain no address. -/
theorem Marks.clean {reason message : String} (h : Marks reason message) :
    Clean message.toList := by
  apply Address.clean_of_not_isDigit
  cases h <;> decide

theorem Unscheduled.clean {events : List Event} {r : Readiness} (h : Unscheduled events r) :
    Clean r.message.toList := by
  apply Address.clean_of_not_isDigit
  cases h <;> decide

/-- The verdict on events shows no address unless it is that nothing is known. -/
theorem Explained.clean {events : List Event} {r : Readiness} (h : Explained events r)
    (hr : r.reason ≠ .unknown) : Clean r.message.toList := by
  cases h with
  | step _ _ marks => exact marks.clean
  | silence => exact absurd rfl hr
  | @warning _ _ c e _ _ _ _ _ yields =>
    cases c with
    | probe => exact Cause.clean_of_yields_probe yields
    | any =>
      cases yields
      exact absurd rfl hr
    | systemImage | image | secret | mount =>
      apply Address.clean_of_not_isDigit
      cases yields <;> decide

/-- Only an unknown cause is told in the words of an event or an error. -/
theorem Verdict.clean {conditions : List Condition} {events : Except String (List Event)}
    {r : Readiness} (h : Verdict conditions events r) (hr : r.reason ≠ .unknown) :
    Clean r.message.toList := by
  cases h with
  | unknown => exact absurd rfl hr
  | unscheduled _ _ verdict => exact verdict.clean
  | uninitialized _ _ _ verdict => exact verdict.clean hr
  | containers _ _ _ _ verdict => exact verdict.clean hr
  | inconclusive _ _ _ _ _ verdict => exact verdict.clean hr
  | ready | initializing | disrupted =>
    apply Address.clean_of_not_isDigit
    decide

/-- Five groups hold one address, and what is left of the groups is none. -/
example : maskAll "10.0.0.1.9 1.2.3.4.5.6.7.8 a1.2.3.4 1234.1.2.3.4" =
    "<ip>.9 <ip>.<ip> a1.2.3.4 1234.<ip>" := by
  decide

end Readiness

end Workplane
