import Mathlib.Data.List.Forall2
import Workplane.Json.Parser
import Workplane.Json.Printer

/-!
# Written text reads back

The bytes of a text are read as the characters of the text (`Symbol.ofBytes_toUTF8`), and a quoted
text is read as the text itself, whatever follows it (`Json.quotedText_quoted`).
-/

namespace Workplane

/-! ### Bytes and symbols -/

theorem Symbol.ofBytesFrom_append (front cs : List Char) :
    ofBytesFrom (front ++ cs).utf8Encode front.utf8Encode.size = cs.map some := by
  induction cs generalizing front with
  | nil =>
    rw [ofBytesFrom, List.append_nil, if_neg (Nat.lt_irrefl _)]
    rfl
  | cons c cs ih =>
    have hsplit : (front ++ c :: cs).utf8Encode = front.utf8Encode ++ (c :: cs).utf8Encode := by
      simp [List.utf8Encode]
    have hsize : front.utf8Encode.size + c.utf8Size = (front ++ [c]).utf8Encode.size := by
      simp [List.utf8Encode]
    have hlt : front.utf8Encode.size < (front ++ c :: cs).utf8Encode.size := by
      have := c.utf8Size_pos
      rw [hsplit, ByteArray.size_append]
      simp [List.utf8Encode]
      omega
    have hdecode : (front ++ c :: cs).utf8Encode.utf8DecodeChar? front.utf8Encode.size = some c := by
      rw [ByteArray.utf8DecodeChar?_eq_utf8DecodeChar?_extract, hsplit,
        ByteArray.extract_append_eq_right rfl (by rw [ByteArray.size_append]),
        List.utf8DecodeChar?_utf8Encode_cons]
    have hih := ih (front ++ [c])
    rw [List.append_assoc, List.singleton_append, ← hsize] at hih
    rw [ofBytesFrom, if_pos hlt, hdecode]
    exact congrArg (some c :: ·) hih

theorem Symbol.ofBytes_toUTF8 (s : String) : ofBytes s.toUTF8 = s.toList.map some := by
  have h := ofBytesFrom_append [] s.toList
  rw [List.nil_append, String.utf8Encode_toList] at h
  exact h

namespace Json

theorem ofBytes?_bytes (j : Json) : ofBytes? j.bytes = parse (j.chars.map some) := by
  rw [ofBytes?, bytes, Symbol.ofBytes_toUTF8, text, String.toList_ofList]

/-! ### Quoted text -/

theorem hexUnit_digits (n : Nat) (h : n < 0x20) :
    hexUnit (some '0') (some '0') (some (Hex.digit (n / 16))) (some (Hex.digit (n % 16))) =
      some n := by
  have : ∀ k : Fin 0x20, hexUnit (some '0') (some '0') (some (Hex.digit (k / 16)))
      (some (Hex.digit (k % 16))) = some k.val := by decide
  exact this ⟨n, h⟩

theorem pieces_unit (a b c d : Symbol) (rest : List Symbol) :
    pieces (some '\\' :: some 'u' :: a :: b :: c :: d :: rest) =
      (hexUnit a b c d).bind fun n => (pieces rest).map fun r => (.unit n :: r.1, r.2) := by
  rw [pieces]
  cases hexUnit a b c d with
  | none => rfl
  | some n => cases pieces rest <;> rfl

theorem pieces_letter {c d : Char} (hu : c ≠ 'u') (h : unescape c = some d) (rest : List Symbol) :
    pieces (some '\\' :: some c :: rest) =
      (pieces rest).map fun r => (.char d :: r.1, r.2) := by
  rw [pieces, h]
  · cases pieces rest <;> rfl
  · rintro _ _ _ _ _ - rfl
    exact hu rfl

theorem pieces_plain {c : Char} (hq : c ≠ '"') (hs : c ≠ '\\') (hc : ¬c.toNat < 0x20)
    (rest : List Symbol) :
    pieces (some c :: rest) = (pieces rest).map fun r => (.char c :: r.1, r.2) := by
  rw [pieces, if_neg (by rintro (h | h) <;> contradiction)]
  · cases pieces rest <;> rfl
  · exact hq
  · rintro _ _ _ _ _ - rfl
    exact hs rfl
  · rintro _ _ - rfl
    exact hs rfl

/-- A piece that spells a character on its own: the character, or a unit below the surrogates. -/
inductive Piece.Spells : Piece → Char → Prop
  | char (c : Char) : Spells (.char c) c
  | unit (c : Char) (h : c.toNat < 0x20) : Spells (.unit c.toNat) c

/-- An escaped character is one piece, whatever follows it. -/
theorem pieces_escapeChar (c : Char) (rest : List Symbol) :
    ∃ p : Piece, p.Spells c ∧
      pieces ((escapeChar c).map some ++ rest) =
        (pieces rest).map fun r => (p :: r.1, r.2) := by
  unfold escapeChar
  split
  · subst_vars
    exact ⟨_, .char '"', pieces_letter (by decide) (by decide) rest⟩
  split
  · subst_vars
    exact ⟨_, .char '\\', pieces_letter (by decide) (by decide) rest⟩
  split
  · subst_vars
    exact ⟨_, .char '\x08', pieces_letter (by decide) (by decide) rest⟩
  split
  · subst_vars
    exact ⟨_, .char '\x0c', pieces_letter (by decide) (by decide) rest⟩
  split
  · subst_vars
    exact ⟨_, .char '\n', pieces_letter (by decide) (by decide) rest⟩
  split
  · subst_vars
    exact ⟨_, .char '\r', pieces_letter (by decide) (by decide) rest⟩
  split
  · subst_vars
    exact ⟨_, .char '\t', pieces_letter (by decide) (by decide) rest⟩
  split
  -- The other control characters are written with four hexadecimal digits.
  · rename_i h
    refine ⟨_, .unit c h, ?_⟩
    have hunit := pieces_unit (some '0') (some '0') (some (Hex.digit (c.toNat / 16)))
      (some (Hex.digit (c.toNat % 16))) rest
    rw [hexUnit_digits c.toNat h] at hunit
    exact hunit
  · rename_i hquote hslash _ _ _ _ _ hcontrol
    exact ⟨_, .char c, pieces_plain hquote hslash hcontrol rest⟩

theorem pieces_flatMap_escapeChar (cs : List Char) (rest : List Symbol) :
    ∃ ps, List.Forall₂ Piece.Spells ps cs ∧
      pieces ((cs.flatMap escapeChar).map some ++ some '"' :: rest) = some (ps, rest) := by
  induction cs with
  | nil => exact ⟨[], .nil, by simp [pieces]⟩
  | cons c cs ih =>
    obtain ⟨ps, hspell, hps⟩ := ih
    obtain ⟨p, hp, hpieces⟩ :=
      pieces_escapeChar c ((cs.flatMap escapeChar).map some ++ some '"' :: rest)
    refine ⟨p :: ps, .cons hp hspell, ?_⟩
    rw [List.flatMap_cons, List.map_append, List.append_assoc, hpieces, hps]
    rfl

theorem joinPieces_unit {n : Nat} (h : n < 0x20) (ps : List Piece) :
    joinPieces (.unit n :: ps) = (joinPieces ps).map (Char.ofNat n :: ·) := by
  have hhigh : isHighSurrogate n = false := by
    simp [isHighSurrogate]
    omega
  have hlow : isLowSurrogate n = false := by
    simp [isLowSurrogate]
    omega
  rcases ps with - | ⟨p, ps⟩
  · simp [joinPieces, hhigh, hlow]
  · -- Only a pair of surrogates joins two units.
    cases p <;> simp only [joinPieces, hhigh, hlow, Option.map_eq_bind, Option.bind_eq_bind,
      Option.pure_def, Function.comp_def, Bool.false_eq_true, Bool.or_self, if_false]

theorem joinPieces_of_spells {ps : List Piece} {cs : List Char}
    (h : List.Forall₂ Piece.Spells ps cs) : joinPieces ps = some cs := by
  induction h with
  | nil => rfl
  | cons hp _ ih =>
    cases hp with
    | char c => rw [joinPieces, ih]; rfl
    | unit c hc =>
      rw [joinPieces_unit hc, ih, Char.ofNat_toNat]
      rfl

/-- A quoted text is read as the text, whatever follows it. -/
theorem quotedText_quoted (s : String) (rest : List Symbol) :
    quotedText ((s.toList.flatMap escapeChar ++ ['"']).map some ++ rest) = some (some s, rest) := by
  obtain ⟨ps, hspell, hps⟩ := pieces_flatMap_escapeChar s.toList rest
  rw [List.map_append, List.append_assoc]
  show (pieces (_ ++ some '"' :: rest)).bind _ = _
  rw [hps, Option.bind_some]
  show some ((joinPieces ps).map String.ofList, rest) = _
  rw [joinPieces_of_spells hspell, Option.map_some, String.ofList_toList]

end Json

end Workplane
