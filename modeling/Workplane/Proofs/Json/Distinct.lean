import Workplane.Proofs.Decimal.Distinct
import Workplane.Proofs.Json.Range

/-!
# Different documents are written differently

A document whose parts all denote values (`Json.IsValue`) is told by its written form
(`Json.IsValue.eq_of_chars_eq`).  Reading does not show this, as two doubles may be read as one; but
reading finds where each part ends, and a number is told by its numeral.
-/

namespace Workplane

open Numeral

namespace Json

/-! ### Numbers and texts -/

/-- A numeral is told by its written form. -/
theorem numeral_eq_of_chars_eq {m n : Numeral} (hm : m.WellFormed) (hn : n.WellFormed)
    (h : m.chars = n.chars) : m = n := by
  have hread {n : Numeral} (hn : n.WellFormed) :
      numeral n.negative (n.magnitudeChars.map some) = some (n, []) := by
    have h : numeral n.negative (n.magnitudeChars.map some ++ []) = some (n, []) :=
      numeral_magnitudeChars hn nofun
    rwa [List.append_nil] at h
  -- No magnitude begins with a sign.
  have hsign {n : Numeral} (hn : n.WellFormed) (cs : List Char) : n.magnitudeChars ≠ '-' :: cs := by
    obtain ⟨d, ds, hds⟩ := List.exists_cons_of_ne_nil hn.whole.1
    have hd : d < 10 := hn.whole.2.1 d (hds ▸ .head ds)
    rw [magnitudeChars, hds]
    intro heq
    have hdigit : d.digitChar = '-' := (List.cons.inj heq).1
    interval_cases d <;> exact absurd hdigit (by decide)
  have hmread := hread hm
  have hnread := hread hn
  unfold Numeral.chars at h
  cases hmneg : m.negative <;> cases hnneg : n.negative <;>
    simp only [hmneg, hnneg, Bool.false_eq_true, if_false, if_true] at h hmread hnread
  · rw [h, hnread] at hmread
    exact (Prod.mk.inj (Option.some.inj hmread)).1.symm
  · exact absurd h (hsign hm _)
  · exact absurd h.symm (hsign hn _)
  · rw [(List.cons.inj h).2, hnread] at hmread
    exact (Prod.mk.inj (Option.some.inj hmread)).1.symm

/-- A number is told by its written form. -/
theorem number_eq_of_chars_eq {m n : Number} (hm : m.InRange) (hn : n.InRange)
    (h : numberChars m = numberChars n) : m = n := by
  have hnumeral {n : Number} (hn : n.InRange) : ∃ k, n.numeral? = some k := by
    cases n with
    | int n => exact ⟨_, rfl⟩
    | float x => exact ⟨_, if_pos (show x.isFinite = true from hn)⟩
  obtain ⟨k, hk⟩ := hnumeral hm
  obtain ⟨l, hl⟩ := hnumeral hn
  rw [m.numberChars_eq, n.numberChars_eq, hk, hl] at h
  obtain rfl := numeral_eq_of_chars_eq (Number.wellFormed_of_numeral? hk)
    (Number.wellFormed_of_numeral? hl) h
  -- The numerals are the same, and what they are read as tells integers from doubles.
  have hreread : m.reread = n.reread := by rw [Number.reread, Number.reread, hk, hl]
  cases m with
  | int a =>
    cases n with
    | int b =>
      rw [Number.reread_int hm, Number.reread_int hn] at hreread
      exact Json.number.inj hreread
    | float y =>
      rw [Number.reread_int hm, Number.reread_float hn] at hreread
      cases Json.number.inj hreread
  | float x =>
    cases n with
    | int b =>
      rw [Number.reread_float hm, Number.reread_int hn] at hreread
      cases Json.number.inj hreread
    | float y =>
      rw [Number.numeral?, if_pos (show x.isFinite = true from hm)] at hk
      rw [Number.numeral?, if_pos (show y.isFinite = true from hn)] at hl
      rw [Decimal.numeral_injective hm hn (Option.some.inj (hk.trans hl.symm))]

/-! ### Documents -/

/-- Every part of the document denotes a value, and every number is in range. -/
inductive IsValue : Json → Prop
  | null : IsValue .null
  | bool (b : Bool) : IsValue (.bool b)
  | number {n : Number} (inRange : n.InRange) : IsValue (.number n)
  | string (s : String) : IsValue (.string s)
  | array {items : List Json} (values : ∀ j ∈ items, IsValue j) : IsValue (.array items)
  | object {members : List (String × Json)} (values : ∀ m ∈ members, IsValue m.2) :
    IsValue (.object members)

theorem endsNumber_comma (cs : List Char) : EndsNumber ((',' :: cs).map some) :=
  endsNumber_cons (Or.inl rfl) (cs.map some)

/-- Documents with the same written form are read as the same, whatever follows them. -/
theorem reread_eq_of_append_eq {i j : Json} {r s : List Char} (hr : EndsNumber (r.map some))
    (hs : EndsNumber (s.map some)) (h : i.chars ++ r = j.chars ++ s) :
    i.reread = j.reread ∧ i.chars = j.chars ∧ r = s := by
  -- Reading stops where the document ends, and what it leaves is the same on both sides.
  let fuel := i.chars.length + j.chars.length + 1
  have hi := value_chars i fuel (by omega) (r.map some) hr
  have hj := value_chars j fuel (by omega) (s.map some) hs
  rw [← List.map_append, h, List.map_append, hj] at hi
  obtain ⟨hreread, hrest⟩ := Prod.mk.inj (Option.some.inj hi)
  have hrest : s = r := List.map_injective_iff.2 (Option.some_injective _) hrest
  subst hrest
  exact ⟨hreread.symm, List.append_cancel_right h, rfl⟩

theorem reread_eq_of_chars_eq {i j : Json} (h : i.chars = j.chars) : i.reread = j.reread :=
  (reread_eq_of_append_eq (r := []) (s := []) nofun nofun (by rw [h])).1

theorem quoted_append_cancel {a b : String} {r s : List Char}
    (h : quoted a ++ r = quoted b ++ s) : a = b ∧ r = s := by
  have ha := value_quoted a 0 (r.map some)
  have hb := value_quoted b 0 (s.map some)
  rw [← List.map_append, h, List.map_append, hb] at ha
  obtain ⟨htext, hrest⟩ := Prod.mk.inj (Option.some.inj ha)
  exact ⟨(Json.string.inj htext).symm,
    List.map_injective_iff.2 (Option.some_injective _) hrest.symm⟩

/-- The items of two arrays are the same if they are written the same, when each item is told by its
written form. -/
theorem items_eq_of_itemChars_eq {is js : List Json}
    (his : ∀ i ∈ is, ∀ {j : Json}, j.IsValue → i.chars = j.chars → i = j)
    (hjs : ∀ j ∈ js, j.IsValue) (hlength : is.length = js.length)
    (h : itemChars is = itemChars js) : is = js := by
  induction is generalizing js with
  | nil => exact (List.length_eq_zero_iff.1 hlength.symm).symm
  | cons i is ih =>
    cases js with
    | nil => exact nomatch hlength
    | cons j js =>
      rw [List.forall_mem_cons] at his hjs
      replace hlength : is.length = js.length := Nat.succ.inj hlength
      cases is with
      | nil =>
        obtain rfl := List.length_eq_zero_iff.1 hlength.symm
        simp only [itemChars] at h
        rw [his.1 hjs.1 h]
      | cons i' is =>
        cases js with
        | nil => exact nomatch hlength
        | cons j' js =>
          -- The comma ends the first item, so both sides are cut at the same place.
          rw [itemChars_cons_cons, itemChars_cons_cons] at h
          obtain ⟨-, hchars, hrest⟩ := reread_eq_of_append_eq
            (endsNumber_comma _) (endsNumber_comma _) h
          rw [his.1 hjs.1 hchars, ih his.2 hjs.2 hlength (List.cons.inj hrest).2]

/-- The members of two objects are the same if they are written the same, when each value is told by
its written form. -/
theorem members_eq_of_memberChars_eq {is js : List (String × Json)}
    (his : ∀ i ∈ is, ∀ {j : Json}, j.IsValue → i.2.chars = j.chars → i.2 = j)
    (hjs : ∀ j ∈ js, j.2.IsValue) (hlength : is.length = js.length)
    (h : memberChars is = memberChars js) : is = js := by
  induction is generalizing js with
  | nil => exact (List.length_eq_zero_iff.1 hlength.symm).symm
  | cons i is ih =>
    cases js with
    | nil => exact nomatch hlength
    | cons j js =>
      obtain ⟨name, value⟩ := i
      obtain ⟨name', value'⟩ := j
      rw [List.forall_mem_cons] at his hjs
      replace hlength : is.length = js.length := Nat.succ.inj hlength
      cases is with
      | nil =>
        obtain rfl := List.length_eq_zero_iff.1 hlength.symm
        simp only [memberChars] at h
        obtain ⟨rfl, hchars⟩ := quoted_append_cancel h
        rw [show value = value' from his.1 hjs.1 (List.cons.inj hchars).2]
      | cons m is =>
        cases js with
        | nil => exact nomatch hlength
        | cons n js =>
          rw [memberChars_cons_cons, memberChars_cons_cons] at h
          obtain ⟨rfl, hchars⟩ := quoted_append_cancel h
          obtain ⟨-, hchars, hrest⟩ := reread_eq_of_append_eq
            (endsNumber_comma _) (endsNumber_comma _) (List.cons.inj hchars).2
          rw [show value = value' from his.1 hjs.1 hchars,
            ih his.2 hjs.2 hlength (List.cons.inj hrest).2]

theorem exists_reread_number {n : Number} (h : n.InRange) : ∃ m, n.reread = .number m := by
  cases n with
  | int n => exact ⟨_, Number.reread_int h⟩
  | float x => exact ⟨_, Number.reread_float h⟩

/-- What a document is, by what its written form is read as. -/
theorem IsValue.of_chars_eq {i j : Json} (hj : j.IsValue) (h : i.chars = j.chars) :
    match i.reread with
    | .null => j = .null
    | .bool b => j = .bool b
    | .number _ => ∃ n, j = .number n ∧ n.InRange
    | .string s => j = .string s
    | .array ks => ∃ items, j = .array items ∧ (∀ k ∈ items, k.IsValue) ∧
        items.length = ks.length
    | .object ks => ∃ members, j = .object members ∧ (∀ m ∈ members, m.2.IsValue) ∧
        members.length = ks.length
    | .unreadable => False := by
  rw [reread_eq_of_chars_eq h]
  cases hj with
  | null => rfl
  | bool b => rfl
  | @number n inRange =>
    obtain ⟨m, hm⟩ := exists_reread_number inRange
    rw [show (Json.number n).reread = .number m from hm]
    exact ⟨n, rfl, inRange⟩
  | string s => rfl
  | @array items values =>
    exact ⟨items, rfl, values, by rw [rereadItems_eq_map, List.length_map]⟩
  | @object members values =>
    exact ⟨members, rfl, values, by rw [rereadMembers_eq_map, List.length_map]⟩

/-- A document is told by its written form. -/
theorem IsValue.eq_of_chars_eq {i : Json} (hi : i.IsValue) {j : Json} (hj : j.IsValue)
    (h : i.chars = j.chars) : i = j := by
  induction hi generalizing j with
  | null => exact (hj.of_chars_eq h).symm
  | bool b => exact (hj.of_chars_eq h).symm
  | @number n inRange =>
    obtain ⟨m, hm⟩ := exists_reread_number inRange
    have hcases := hj.of_chars_eq h
    rw [show (Json.number n).reread = .number m from hm] at hcases
    obtain ⟨n', rfl, inRange'⟩ := hcases
    rw [number_eq_of_chars_eq inRange inRange' h]
  | string s => exact (hj.of_chars_eq h).symm
  | @array items values ih =>
    obtain ⟨items', rfl, values', hlength⟩ := hj.of_chars_eq h
    rw [rereadItems_eq_map, List.length_map] at hlength
    rw [items_eq_of_itemChars_eq (fun i hi _ => ih i hi) values' hlength.symm
      (List.append_cancel_right (List.cons.inj h).2)]
  | @object members values ih =>
    obtain ⟨members', rfl, values', hlength⟩ := hj.of_chars_eq h
    rw [rereadMembers_eq_map, List.length_map] at hlength
    rw [members_eq_of_memberChars_eq (fun m hm _ => ih m hm) values' hlength.symm
      (List.append_cancel_right (List.cons.inj h).2)]

/-- A document is told by its bytes. -/
theorem IsValue.eq_of_bytes_eq {i j : Json} (hi : i.IsValue) (hj : j.IsValue)
    (h : i.bytes = j.bytes) : i = j := by
  have htext : i.text = j.text := String.toByteArray_inj.1 h
  exact hi.eq_of_chars_eq hj (String.ofList_injective htext)

end Json

namespace Reader

open Json

mutual

/-- A document that was read, and whose numbers were read, has only values for parts. -/
theorem isValue_of_any {room : Nat} {j k : Json} (h : any room j = some k) (hj : j.InRange) :
    k.IsValue := by
  match room, j with
  | _, .null =>
    obtain rfl := Option.some.inj h
    exact .null
  | _, .bool b =>
    obtain rfl := Option.some.inj h
    exact .bool b
  | _, .number n =>
    obtain rfl := Option.some.inj h
    exact .number hj
  | _, .string s =>
    obtain rfl := Option.some.inj h
    exact .string s
  | 0, .array _ | 0, .object _ | _, .unreadable => exact nomatch h
  | room + 1, .array items =>
    obtain ⟨ks, hks, rfl⟩ := Option.map_eq_some_iff.1 h
    exact .array (isValue_of_anyItems hks hj)
  | room + 1, .object members =>
    obtain ⟨ks, hks, rfl⟩ := Option.map_eq_some_iff.1 h
    exact .object fun m hm => isValue_of_anyMembers hks hj m (Sorted.mem_of_mem_ofList hm)

theorem isValue_of_anyItems {room : Nat} {items ks : List Json}
    (h : anyItems room items = some ks) (hj : ItemsInRange items) : ∀ k ∈ ks, k.IsValue := by
  match items with
  | [] =>
    obtain rfl := Option.some.inj h
    exact nofun
  | item :: rest =>
    obtain ⟨k, hk, h⟩ := Option.bind_eq_some_iff.1 h
    obtain ⟨ks, hks, h⟩ := Option.bind_eq_some_iff.1 h
    obtain rfl := Option.some.inj h
    exact List.forall_mem_cons.2 ⟨isValue_of_any hk hj.1, isValue_of_anyItems hks hj.2⟩

theorem isValue_of_anyMembers {room : Nat} {members ks : List (String × Json)}
    (h : anyMembers room members = some ks) (hj : MembersInRange members) :
    ∀ m ∈ ks, m.2.IsValue := by
  match members with
  | [] =>
    obtain rfl := Option.some.inj h
    exact nofun
  | (name, value) :: rest =>
    obtain ⟨k, hk, h⟩ := Option.bind_eq_some_iff.1 h
    obtain ⟨ks, hks, h⟩ := Option.bind_eq_some_iff.1 h
    obtain rfl := Option.some.inj h
    exact List.forall_mem_cons.2 ⟨isValue_of_any hk hj.1, isValue_of_anyMembers hks hj.2⟩

end

end Reader

end Workplane
