import Mathlib.Tactic.IntervalCases
import Workplane.Proofs.Decimal.Stored
import Workplane.Proofs.Json.Text

/-!
# Written documents read back

Reading a written document gives `Json.reread` of it (`Json.ofBytes?_bytes_eq`): its shape, its
texts and its integers of 64 bits are kept, and a finite double becomes the double that its
shortest digits are read as, which is finite again.
-/

namespace Workplane

open Numeral

/-! ### Numbers -/

namespace Number

/-- The numeral that a number is written as; `none` for infinities and NaN. -/
def numeral? : Number → Option Numeral
  | .int n =>
    some { negative := decide (n < 0), whole := digits n.natAbs, fraction := none,
           exponent := none }
  | .float x => if x.isFinite then some (Decimal.numeral x) else none

/-- A number that a document can denote: an integer of 64 bits or a finite double. -/
def InRange : Number → Prop
  | .int n => -2 ^ 63 ≤ n ∧ n < 2 ^ 64
  | .float x => x.isFinite = true

/-- The document that a written number is read as. -/
def reread (n : Number) : Json :=
  n.numeral?.elim .null Json.ofNumeral

end Number

/-- The double that the stored form of a finite double is read as. -/
def Double.reread (x : Float) : Float :=
  (Decimal.numeral x).toFloat?.getD x

/-- What is written for a finite double is read back. -/
theorem Double.toFloat?_numeral {x : Float} (h : x.isFinite = true) :
    (Decimal.numeral x).toFloat? = some (Double.reread x) := by
  obtain ⟨y, hy, -⟩ := Decimal.exists_toFloat?_numeral h
  rw [Double.reread, hy]
  rfl

/-- Rereading keeps a double finite. -/
theorem Double.isFinite_reread {x : Float} (h : x.isFinite = true) :
    (Double.reread x).isFinite = true :=
  isFinite_of_toFloat? (Double.toFloat?_numeral h)

namespace Number

theorem wellFormed_of_numeral? {n : Number} {m : Numeral} (h : n.numeral? = some m) :
    m.WellFormed := by
  cases n with
  | int n =>
    obtain rfl := Option.some.inj h
    exact ⟨isWhole_digits _, fun _ hf => nomatch hf⟩
  | float x =>
    rw [numeral?] at h
    split at h
    · rename_i hfin
      obtain rfl := Option.some.inj h
      exact Decimal.wellFormed_numeral hfin
    · exact nomatch h

/-- A number is written as its numeral, or as null if it has none. -/
theorem numberChars_eq (n : Number) :
    Json.numberChars n = n.numeral?.elim ['n', 'u', 'l', 'l'] chars := by
  cases n with
  | int n =>
    cases n with
    | ofNat n =>
      show Nat.toDigits 10 n = _
      simp [numeral?, chars, magnitudeChars, fractionChars, exponentChars, digitChars_digits]
    | negSucc n =>
      show '-' :: Nat.toDigits 10 (n + 1) = _
      simp [numeral?, chars, magnitudeChars, fractionChars, exponentChars, digitChars_digits,
        Int.negSucc_lt_zero]
  | float x =>
    show (if x.isNaN || x.isInf then _ else _) = _
    rw [numeral?]
    by_cases hfin : x.isFinite = true
    · rw [if_pos hfin, Double.isNaN_of_isFinite hfin, Double.isInf_of_isFinite hfin]
      exact Decimal.finite_eq_chars x
    · rw [if_neg hfin, if_pos]
      · rfl
      · by_contra h
        rw [Bool.not_eq_true, Bool.or_eq_false_iff] at h
        exact hfin (Double.isFinite_of_isInf_of_isNaN h.2 h.1)

theorem reread_int {n : Int} (h : (Number.int n).InRange) : (Number.int n).reread = .int n := by
  obtain ⟨hlow, hhigh⟩ := h
  show Json.ofNumeral _ = _
  have hint : toInt? { negative := decide (n < 0), whole := digits n.natAbs, fraction := none,
                       exponent := none } = some n := by
    unfold toInt?
    simp only [ofDigits_digits, decide_eq_true_eq]
    split
    · rw [if_pos (by omega)]
      congr 1
      omega
    · rw [if_pos (by omega)]
      congr 1
      omega
  rw [Json.ofNumeral, hint]
  rfl

/-- What is written for a double is never read as an integer. -/
theorem toInt?_numeral (x : Float) : (Decimal.numeral x).toInt? = none := by
  have hmag : ∀ b : Decimal.Binary,
      b.numeral.fraction.isSome = true ∨ b.numeral.exponent.isSome = true := by
    intro b
    unfold Decimal.Binary.numeral
    simp only
    split
    · exact Or.inl rfl
    · split
      · exact Or.inl rfl
      · exact Or.inr rfl
  unfold toInt?
  split
  · rename_i hf he
    rcases hmag (Decimal.Binary.ofBits x.toBits) with h | h
    · rw [show (Decimal.Binary.ofBits x.toBits).numeral.fraction = none from hf] at h
      exact nomatch h
    · rw [show (Decimal.Binary.ofBits x.toBits).numeral.exponent = none from he] at h
      exact nomatch h
  · rfl

theorem reread_float {x : Float} (h : x.isFinite = true) :
    (Number.float x).reread = .float (Double.reread x) := by
  rw [reread, numeral?, if_pos h]
  show Json.ofNumeral (Decimal.numeral x) = _
  rw [Json.ofNumeral, toInt?_numeral, Double.toFloat?_numeral h]
  rfl

end Number

/-! ### Documents -/

namespace Json

mutual

/-- The document that a written document is read as. -/
def reread : Json → Json
  | .null | .unreadable => .null
  | .bool b => .bool b
  | .number n => n.reread
  | .string s => .string s
  | .array items => .array (rereadItems items)
  | .object members => .object (rereadMembers members)

/-- The items of a written array as they are read. -/
def rereadItems : List Json → List Json
  | [] => []
  | item :: rest => item.reread :: rereadItems rest

/-- The members of a written object as they are read. -/
def rereadMembers : List (String × Json) → List (String × Json)
  | [] => []
  | (name, value) :: rest => (name, value.reread) :: rereadMembers rest

end

/-- The parser reads a well-formed numeral up to where it ends. -/
theorem value_numeral {n : Numeral} (wf : n.WellFormed) (fuel : Nat) {rest : List Symbol}
    (h : EndsNumber rest) :
    value (fuel + 1) (n.chars.map some ++ rest) = some (ofNumeral n, rest) := by
  have hnum := numeral_magnitudeChars wf h
  unfold Numeral.chars
  split
  · rename_i hneg
    rw [hneg] at hnum
    show (numeral true (n.magnitudeChars.map some ++ rest)).bind _ = _
    rw [hnum]
    rfl
  · rename_i hneg
    rw [Bool.not_eq_true] at hneg
    rw [hneg] at hnum
    obtain ⟨d, ds, hds⟩ := List.exists_cons_of_ne_nil wf.whole.1
    have hd : d < 10 := wf.whole.2.1 d (hds ▸ .head ds)
    have hmag : n.magnitudeChars = d.digitChar :: (digitChars ds ++
        (fractionChars n.fraction ++ exponentChars n.exponent)) := by
      rw [magnitudeChars, hds]
      rfl
    have hvalue : value (fuel + 1) (n.magnitudeChars.map some ++ rest) =
        (numeral false (n.magnitudeChars.map some ++ rest)).bind fun r =>
          some (ofNumeral r.1, r.2) := by
      rw [hmag]
      interval_cases d <;> rfl
    rw [hvalue, hnum]
    rfl

/-- The parser reads a number that was printed as the number reread. -/
theorem value_number (n : Number) (fuel : Nat) {rest : List Symbol} (h : EndsNumber rest) :
    value (fuel + 1) ((numberChars n).map some ++ rest) = some (n.reread, rest) := by
  rw [n.numberChars_eq, Number.reread]
  cases hn : n.numeral? with
  | none => rfl
  | some m => exact value_numeral (Number.wellFormed_of_numeral? hn) fuel h

theorem value_quoted (s : String) (fuel : Nat) (rest : List Symbol) :
    value (fuel + 1) ((quoted s).map some ++ rest) = some (.string s, rest) := by
  show (quotedText ((s.toList.flatMap escapeChar ++ ['"']).map some ++ rest)).bind _ = _
  rw [quotedText_quoted]
  rfl

/-- What follows an item of an array or an object. -/
theorem endsNumber_cons {c : Char} (h : c = ',' ∨ c = ']' ∨ c = '}') (rest : List Symbol) :
    EndsNumber (some c :: rest) := by
  intro d hd
  obtain rfl := Option.some.inj (Option.some.inj hd)
  exact h

/-- No document begins with a blank, and only an empty array is followed by its bracket. -/
theorem exists_chars_cons (j : Json) : ∃ c cs, j.chars = c :: cs ∧ isSpace c = false ∧ c ≠ ']' := by
  cases j with
  | null => exact ⟨_, _, rfl, rfl, by decide⟩
  | unreadable => exact ⟨_, _, rfl, rfl, by decide⟩
  | bool b => cases b <;> exact ⟨_, _, rfl, rfl, by decide⟩
  | string s => exact ⟨_, _, rfl, rfl, by decide⟩
  | array items => exact ⟨_, _, rfl, rfl, by decide⟩
  | object members => exact ⟨_, _, rfl, rfl, by decide⟩
  | number n =>
    show ∃ c cs, numberChars n = c :: cs ∧ _
    rw [n.numberChars_eq]
    cases hn : n.numeral? with
    | none => exact ⟨_, _, rfl, rfl, by decide⟩
    | some m =>
      obtain ⟨hne, hlt, -⟩ := (Number.wellFormed_of_numeral? hn).whole
      obtain ⟨d, ds, hds⟩ := List.exists_cons_of_ne_nil hne
      have hd : d < 10 := hlt d (hds ▸ .head ds)
      show ∃ c cs, m.chars = c :: cs ∧ _
      rw [Numeral.chars, magnitudeChars, hds]
      split
      · exact ⟨_, _, rfl, rfl, by decide⟩
      · refine ⟨d.digitChar, _, rfl, ?_, ?_⟩ <;> interval_cases d <;> decide

theorem skipSpace_cons {c : Char} (hc : isSpace c = false) (s : List Symbol) :
    skipSpace (some c :: s) = some c :: s := by
  rw [skipSpace, hc]
  rfl

/-- An array that is not empty is read item by item. -/
theorem value_array {c : Char} (hc : isSpace c = false) (hne : c ≠ ']') (fuel : Nat)
    (s : List Symbol) :
    value (fuel + 1) (some '[' :: some c :: s) =
      (items fuel (some c :: s)).bind fun r => some (Json.array r.1, r.2) := by
  rw [value, skipSpace_cons (c := '[') rfl]
  simp only [skipSpace_cons hc]
  split
  · rename_i heq
    injection heq with heq
    exact absurd (Option.some.inj heq) hne
  · rfl

theorem value_object (fuel : Nat) (s : List Symbol) :
    value (fuel + 1) (some '{' :: some '"' :: s) =
      (members fuel (some '"' :: s)).bind fun r => some (ofMembers r.1, r.2) := rfl

theorem itemChars_cons_cons (item next : Json) (more : List Json) :
    itemChars (item :: next :: more) = item.chars ++ ',' :: itemChars (next :: more) := by
  rw [itemChars]
  exact fun h => nomatch h

theorem memberChars_cons_cons (name : String) (item : Json) (next : String × Json)
    (more : List (String × Json)) : memberChars ((name, item) :: next :: more) =
      quoted name ++ ':' :: (item.chars ++ ',' :: memberChars (next :: more)) := by
  rw [memberChars]
  exact fun h => nomatch h

/-- Printed items begin with no space and do not end the array. -/
theorem exists_itemChars_cons (item : Json) (more : List Json) :
    ∃ c cs, itemChars (item :: more) = c :: cs ∧ isSpace c = false ∧ c ≠ ']' := by
  obtain ⟨c, cs, hc, h⟩ := exists_chars_cons item
  cases more with
  | nil => exact ⟨c, cs, by rw [itemChars, hc], h⟩
  | cons next more => exact ⟨c, _, by rw [itemChars_cons_cons, hc]; rfl, h⟩

/-- A name and the document under it, before a comma or the closing brace. -/
theorem members_quoted (name : String) (fuel : Nat) (s : List Symbol) :
    members (fuel + 1) ((quoted name).map some ++ some ':' :: s) =
      (value fuel s).bind fun r =>
        match skipSpace r.2 with
        | some ',' :: rest =>
          (members fuel rest).bind fun m => some ((some name, r.1) :: m.1, m.2)
        | some '}' :: rest => some ([(some name, r.1)], rest)
        | _ => none := by
  show (quotedText ((name.toList.flatMap escapeChar ++ ['"']).map some ++ some ':' :: s)).bind _ = _
  rw [quotedText_quoted]
  rfl

theorem ofMembers_some (ms : List (String × Json)) :
    ofMembers (ms.map fun m => (some m.1, m.2)) = .object ms := by
  have hmap : (ms.map fun m => (some m.1, m.2)).mapM (fun m : Option String × Json =>
      m.1.map fun name => (name, m.2)) = some ms := by
    induction ms with
    | nil => rfl
    | cons m rest ih =>
      rw [List.map_cons, List.mapM_cons, ih]
      rfl
  rw [ofMembers, hmap]

mutual

/-- A written document is read as its reread form, whatever follows it. -/
theorem value_chars (j : Json) (fuel : Nat) (hfuel : j.chars.length < fuel) (rest : List Symbol)
    (hrest : EndsNumber rest) :
    value fuel (j.chars.map some ++ rest) = some (j.reread, rest) := by
  obtain ⟨fuel, rfl⟩ := Nat.exists_eq_succ_of_ne_zero (Nat.ne_zero_of_lt hfuel)
  match j with
  | .null => rfl
  | .unreadable => rfl
  | .bool true => rfl
  | .bool false => rfl
  | .number n => exact value_number n fuel hrest
  | .string s => exact value_quoted s fuel rest
  | .array [] => rfl
  | .array (item :: more) =>
    have hchars : (Json.array (item :: more)).chars =
        '[' :: (itemChars (item :: more) ++ [']']) := by rw [chars]
    rw [hchars] at hfuel ⊢
    simp only [List.length_cons, List.length_append, List.length_nil] at hfuel
    have hitems := items_itemChars item more fuel (by omega) rest
    -- An item begins neither with a blank nor with the closing bracket.
    obtain ⟨c, cs, hcs, hspace, hne⟩ := exists_itemChars_cons item more
    rw [List.map_cons, List.map_append, List.cons_append, List.append_assoc]
    show value (fuel + 1) (some '[' :: ((itemChars (item :: more)).map some ++ some ']' :: rest)) = _
    rw [hcs] at hitems ⊢
    show value (fuel + 1) (some '[' :: some c :: (cs.map some ++ some ']' :: rest)) = _
    rw [value_array hspace hne]
    change items fuel (some c :: (cs.map some ++ some ']' :: rest)) = _ at hitems
    rw [hitems]
    rfl
  | .object [] => rfl
  | .object ((name, item) :: more) =>
    have hchars : (Json.object ((name, item) :: more)).chars =
        '{' :: (memberChars ((name, item) :: more) ++ ['}']) := by rw [chars]
    rw [hchars] at hfuel ⊢
    simp only [List.length_cons, List.length_append, List.length_nil] at hfuel
    have hmembers := members_memberChars name item more fuel (by omega) rest
    -- The members begin with the quote of a name.
    have hhead : ∃ cs, memberChars ((name, item) :: more) = '"' :: cs := by
      cases more with
      | nil => exact ⟨_, by rw [memberChars]; rfl⟩
      | cons next more => exact ⟨_, by rw [memberChars_cons_cons]; rfl⟩
    obtain ⟨cs, hcs⟩ := hhead
    rw [List.map_cons, List.map_append, List.cons_append, List.append_assoc]
    rw [hcs] at hmembers ⊢
    show value (fuel + 1) (some '{' :: some '"' :: (cs.map some ++ some '}' :: rest)) = _
    rw [value_object]
    change members fuel (some '"' :: (cs.map some ++ some '}' :: rest)) = _ at hmembers
    rw [hmembers, Option.bind_some, ofMembers_some]
    rfl
termination_by fuel

/-- The written items of an array are read up to its closing bracket. -/
theorem items_itemChars (item : Json) (more : List Json) (fuel : Nat)
    (hfuel : (itemChars (item :: more)).length + 1 < fuel) (rest : List Symbol) :
    items fuel ((itemChars (item :: more)).map some ++ some ']' :: rest) =
      some (rereadItems (item :: more), rest) := by
  obtain ⟨fuel, rfl⟩ := Nat.exists_eq_succ_of_ne_zero (Nat.ne_zero_of_lt hfuel)
  match more with
  | [] =>
    have hchars : itemChars [item] = item.chars := by rw [itemChars]
    rw [hchars] at hfuel ⊢
    have hvalue := value_chars item fuel (by omega) (some ']' :: rest)
      (endsNumber_cons (by decide) rest)
    rw [items, hvalue]
    rfl
  | next :: more =>
    rw [itemChars_cons_cons] at hfuel ⊢
    simp only [List.length_append, List.length_cons] at hfuel
    have hvalue := value_chars item fuel (by omega)
      (some ',' :: ((itemChars (next :: more)).map some ++ some ']' :: rest))
      (endsNumber_cons (by decide) _)
    have hitems := items_itemChars next more fuel (by omega) rest
    rw [List.map_append, List.append_assoc]
    show items (fuel + 1) (item.chars.map some ++
      some ',' :: ((itemChars (next :: more)).map some ++ some ']' :: rest)) = _
    rw [items, hvalue]
    show (items fuel ((itemChars (next :: more)).map some ++ some ']' :: rest)).bind _ = _
    rw [hitems]
    rfl
termination_by fuel

/-- The written members of an object are read up to its closing brace. -/
theorem members_memberChars (name : String) (item : Json) (more : List (String × Json)) (fuel : Nat)
    (hfuel : (memberChars ((name, item) :: more)).length + 1 < fuel) (rest : List Symbol) :
    members fuel ((memberChars ((name, item) :: more)).map some ++ some '}' :: rest) =
      some ((rereadMembers ((name, item) :: more)).map fun m => (some m.1, m.2), rest) := by
  obtain ⟨fuel, rfl⟩ := Nat.exists_eq_succ_of_ne_zero (Nat.ne_zero_of_lt hfuel)
  match more with
  | [] =>
    have hchars : memberChars [(name, item)] = quoted name ++ ':' :: item.chars := by
      rw [memberChars]
    rw [hchars] at hfuel ⊢
    simp only [List.length_append, List.length_cons] at hfuel
    have hvalue := value_chars item fuel (by omega) (some '}' :: rest)
      (endsNumber_cons (by decide) rest)
    rw [List.map_append, List.append_assoc]
    show members (fuel + 1) ((quoted name).map some ++
      some ':' :: (item.chars.map some ++ some '}' :: rest)) = _
    rw [members_quoted, hvalue]
    rfl
  | next :: more =>
    obtain ⟨nextName, nextItem⟩ := next
    rw [memberChars_cons_cons] at hfuel ⊢
    simp only [List.length_append, List.length_cons] at hfuel
    have hvalue := value_chars item fuel (by omega)
      (some ',' :: ((memberChars ((nextName, nextItem) :: more)).map some ++ some '}' :: rest))
      (endsNumber_cons (by decide) _)
    have hmembers := members_memberChars nextName nextItem more fuel (by omega) rest
    rw [List.map_append, List.append_assoc]
    show members (fuel + 1) ((quoted name).map some ++ some ':' ::
      ((item.chars ++ ',' :: memberChars ((nextName, nextItem) :: more)).map some ++
        some '}' :: rest)) = _
    rw [members_quoted, List.map_append, List.append_assoc]
    show (value fuel (item.chars.map some ++ some ',' ::
      ((memberChars ((nextName, nextItem) :: more)).map some ++ some '}' :: rest))).bind _ = _
    rw [hvalue]
    show (members fuel ((memberChars ((nextName, nextItem) :: more)).map some ++
      some '}' :: rest)).bind _ = _
    rw [hmembers]
    rfl
termination_by fuel

end

/-- Reading a written document gives its reread form. -/
theorem ofBytes?_bytes_eq (j : Json) : ofBytes? j.bytes = some j.reread := by
  have hvalue := value_chars j (2 * (j.chars.map some).length + 2)
    (by rw [List.length_map]; omega) [] (fun c hc => nomatch hc)
  rw [List.append_nil] at hvalue
  rw [ofBytes?_bytes, parse, hvalue]
  rfl

end Json

end Workplane
