import Workplane.Json.Reader
import Workplane.Proofs.Json.Rereading
import Workplane.Proofs.Sorted

/-!
# Documents within range

Every number of a document that was read is an integer of 64 bits or a finite double
(`Json.inRange_of_ofBytes?`), and stays one when it is written and read again
(`Json.inRange_reread`).  A document of any shape is read at the same depth again
(`Reader.any_reread`).
-/

namespace Workplane

namespace Json

mutual

/-- Every number of the document is an integer of 64 bits or a finite double. -/
def InRange : Json → Prop
  | .number n => n.InRange
  | .array items => ItemsInRange items
  | .object members => MembersInRange members
  | .null | .bool _ | .string _ | .unreadable => True

/-- Every number of the items is in range. -/
def ItemsInRange : List Json → Prop
  | [] => True
  | item :: rest => item.InRange ∧ ItemsInRange rest

/-- Every number of the members is in range. -/
def MembersInRange : List (String × Json) → Prop
  | [] => True
  | (_, value) :: rest => value.InRange ∧ MembersInRange rest

end

theorem itemsInRange_iff {items : List Json} : ItemsInRange items ↔ ∀ j ∈ items, j.InRange := by
  induction items with
  | nil => simp [ItemsInRange]
  | cons item rest ih => simp [ItemsInRange, ih]

theorem membersInRange_iff {members : List (String × Json)} :
    MembersInRange members ↔ ∀ m ∈ members, m.2.InRange := by
  induction members with
  | nil => simp [MembersInRange]
  | cons m rest ih => simp [MembersInRange, ih]

/-! ### What is read is in range -/

theorem exists_of_mem_mapM {f : α → Option β} {as : List α} {bs : List β} (h : as.mapM f = some bs)
    {b : β} (hb : b ∈ bs) : ∃ a ∈ as, f a = some b := by
  induction as generalizing bs with
  | nil =>
    obtain rfl := Option.some.inj h
    exact nomatch hb
  | cons a as ih =>
    rw [List.mapM_cons] at h
    obtain ⟨c, hc, h⟩ := Option.bind_eq_some_iff.1 h
    obtain ⟨cs, hcs, h⟩ := Option.bind_eq_some_iff.1 h
    obtain rfl := Option.some.inj h
    rcases List.mem_cons.1 hb with rfl | hb
    · exact ⟨a, .head as, hc⟩
    · obtain ⟨a', ha', hfa⟩ := ih hcs hb
      exact ⟨a', .tail a ha', hfa⟩


theorem inRange_ofNumeral (n : Numeral) : (ofNumeral n).InRange := by
  unfold ofNumeral
  split
  · rename_i i hi
    show -2 ^ 63 ≤ i ∧ i < 2 ^ 64
    unfold Numeral.toInt? at hi
    split at hi
    · simp only at hi
      split at hi <;> split at hi
      · obtain rfl := Option.some.inj hi
        omega
      · exact nomatch hi
      · obtain rfl := Option.some.inj hi
        omega
      · exact nomatch hi
    · exact nomatch hi
  · split
    · rename_i x hx
      exact Numeral.isFinite_of_toFloat? hx
    · trivial

theorem inRange_ofMembers {members : List (Option String × Json)} (h : ∀ m ∈ members, m.2.InRange) :
    (ofMembers members).InRange := by
  unfold ofMembers
  split
  · rename_i ms hms
    refine membersInRange_iff.2 fun m hm => ?_
    obtain ⟨named, hnamed, hsome⟩ := exists_of_mem_mapM hms hm
    obtain ⟨name, -, rfl⟩ := Option.map_eq_some_iff.1 hsome
    exact h named hnamed
  · trivial

mutual

/-- What the parser reads is in range: its numbers are finite and its integers have sixty-four bits.
-/
theorem inRange_of_value {fuel : Nat} {s rest : List Symbol} {j : Json}
    (h : value fuel s = some (j, rest)) : j.InRange := by
  cases fuel with
  | zero => exact nomatch h
  | succ fuel =>
    unfold value at h
    split at h
    · obtain ⟨rfl, -⟩ := Prod.mk.inj (Option.some.inj h)
      trivial
    · obtain ⟨rfl, -⟩ := Prod.mk.inj (Option.some.inj h)
      trivial
    · obtain ⟨rfl, -⟩ := Prod.mk.inj (Option.some.inj h)
      trivial
    · obtain ⟨⟨text, _⟩, -, hj⟩ := Option.bind_eq_some_iff.1 h
      obtain ⟨rfl, -⟩ := Prod.mk.inj (Option.some.inj hj)
      cases text <;> trivial
    · split at h
      · obtain ⟨rfl, -⟩ := Prod.mk.inj (Option.some.inj h)
        trivial
      · obtain ⟨⟨js, _⟩, hjs, hj⟩ := Option.bind_eq_some_iff.1 h
        obtain ⟨rfl, -⟩ := Prod.mk.inj (Option.some.inj hj)
        exact itemsInRange_iff.2 (inRange_of_items hjs)
    · split at h
      · obtain ⟨rfl, -⟩ := Prod.mk.inj (Option.some.inj h)
        trivial
      · obtain ⟨⟨ms, _⟩, hms, hj⟩ := Option.bind_eq_some_iff.1 h
        obtain ⟨rfl, -⟩ := Prod.mk.inj (Option.some.inj hj)
        exact inRange_ofMembers (inRange_of_members hms)
    · obtain ⟨⟨n, _⟩, -, hj⟩ := Option.bind_eq_some_iff.1 h
      obtain ⟨rfl, -⟩ := Prod.mk.inj (Option.some.inj hj)
      exact inRange_ofNumeral n
    · obtain ⟨⟨n, _⟩, -, hj⟩ := Option.bind_eq_some_iff.1 h
      obtain ⟨rfl, -⟩ := Prod.mk.inj (Option.some.inj hj)
      exact inRange_ofNumeral n
termination_by fuel

theorem inRange_of_items {fuel : Nat} {s rest : List Symbol} {js : List Json}
    (h : items fuel s = some (js, rest)) : ∀ j ∈ js, j.InRange := by
  cases fuel with
  | zero => exact nomatch h
  | succ fuel =>
    unfold items at h
    obtain ⟨⟨item, after⟩, hitem, h⟩ := Option.bind_eq_some_iff.1 h
    have hhead := inRange_of_value hitem
    simp only at h
    split at h
    · obtain ⟨⟨more, _⟩, hmore, hjs⟩ := Option.bind_eq_some_iff.1 h
      obtain ⟨rfl, -⟩ := Prod.mk.inj (Option.some.inj hjs)
      exact List.forall_mem_cons.2 ⟨hhead, inRange_of_items hmore⟩
    · obtain ⟨rfl, -⟩ := Prod.mk.inj (Option.some.inj h)
      exact List.forall_mem_singleton.2 hhead
    · exact nomatch h
termination_by fuel

theorem inRange_of_members {fuel : Nat} {s rest : List Symbol} {ms : List (Option String × Json)}
    (h : members fuel s = some (ms, rest)) : ∀ m ∈ ms, m.2.InRange := by
  cases fuel with
  | zero => exact nomatch h
  | succ fuel =>
    unfold members at h
    split at h
    · obtain ⟨⟨name, after⟩, -, h⟩ := Option.bind_eq_some_iff.1 h
      simp only at h
      split at h
      · obtain ⟨⟨item, after⟩, hitem, h⟩ := Option.bind_eq_some_iff.1 h
        have hhead := inRange_of_value hitem
        simp only at h
        split at h
        · obtain ⟨⟨more, _⟩, hmore, hms⟩ := Option.bind_eq_some_iff.1 h
          obtain ⟨rfl, -⟩ := Prod.mk.inj (Option.some.inj hms)
          exact List.forall_mem_cons.2 ⟨hhead, inRange_of_members hmore⟩
        · obtain ⟨rfl, -⟩ := Prod.mk.inj (Option.some.inj h)
          exact List.forall_mem_singleton.2 hhead
        · exact nomatch h
      · exact nomatch h
    · exact nomatch h
termination_by fuel

end

/-- Every document that a text holds is in range. -/
theorem inRange_of_ofBytes? {b : ByteArray} {j : Json} (h : ofBytes? b = some j) : j.InRange := by
  unfold ofBytes? parse at h
  obtain ⟨⟨j', rest⟩, hvalue, h⟩ := Option.bind_eq_some_iff.1 h
  simp only at h
  split at h
  · obtain rfl := Option.some.inj h
    exact inRange_of_value hvalue
  · exact nomatch h

/-! ### Reading again -/

theorem inRange_reread_number {n : Number} (h : n.InRange) : n.reread.InRange := by
  cases n with
  | int n =>
    rw [Number.reread_int h]
    exact h
  | float x =>
    rw [Number.reread_float h]
    exact Double.isFinite_reread h

mutual

/-- Rereading keeps a document in range. -/
theorem inRange_reread {j : Json} (h : j.InRange) : j.reread.InRange := by
  match j with
  | .null | .unreadable | .bool _ | .string _ => trivial
  | .number n => exact inRange_reread_number h
  | .array items => exact itemsInRange_reread h
  | .object members => exact membersInRange_reread h

theorem itemsInRange_reread {items : List Json} (h : ItemsInRange items) :
    ItemsInRange (rereadItems items) := by
  match items with
  | [] => trivial
  | item :: rest => exact ⟨inRange_reread h.1, itemsInRange_reread h.2⟩

theorem membersInRange_reread {members : List (String × Json)} (h : MembersInRange members) :
    MembersInRange (rereadMembers members) := by
  match members with
  | [] => trivial
  | (name, value) :: rest => exact ⟨inRange_reread h.1, membersInRange_reread h.2⟩

end

theorem rereadItems_eq_map (items : List Json) : rereadItems items = items.map reread := by
  induction items with
  | nil => rfl
  | cons item rest ih => rw [rereadItems, ih, List.map_cons]

theorem rereadMembers_eq_map (members : List (String × Json)) :
    rereadMembers members = members.map fun m => (m.1, m.2.reread) := by
  induction members with
  | nil => rfl
  | cons m rest ih => rw [rereadMembers, ih, List.map_cons]

end Json

/-! ### Documents of any shape -/

namespace Reader

open Json

mutual

/-- Reading any document commutes with rereading its numbers. -/
theorem any_reread {room : Nat} {j k : Json} (hj : j.InRange) (h : any room j = some k) :
    any room j.reread = some k.reread := by
  match room, j with
  | _, .null | _, .bool _ | _, .string _ =>
    obtain rfl := Option.some.inj h
    rfl
  | _, .number n =>
    obtain rfl := Option.some.inj h
    cases n with
    | int n =>
      show any _ (Number.int n).reread = some (Number.int n).reread
      rw [Number.reread_int hj]
      rfl
    | float x =>
      show any _ (Number.float x).reread = some (Number.float x).reread
      rw [Number.reread_float hj]
      rfl
  | 0, .array _ | 0, .object _ | _, .unreadable => exact nomatch h
  | room + 1, .array items =>
    obtain ⟨ks, hks, rfl⟩ := Option.map_eq_some_iff.1 h
    show (anyItems room (rereadItems items)).map _ = _
    rw [anyItems_reread hj hks]
    rfl
  | room + 1, .object members =>
    obtain ⟨ks, hks, rfl⟩ := Option.map_eq_some_iff.1 h
    show (anyMembers room (rereadMembers members)).map _ = some (Json.object (rereadMembers _))
    rw [anyMembers_reread hj hks, Option.map_some, rereadMembers_eq_map, rereadMembers_eq_map,
      Sorted.ofList_map]

theorem anyItems_reread {room : Nat} {items ks : List Json} (hj : ItemsInRange items)
    (h : anyItems room items = some ks) :
    anyItems room (rereadItems items) = some (rereadItems ks) := by
  match items with
  | [] =>
    obtain rfl := Option.some.inj h
    rfl
  | item :: rest =>
    obtain ⟨k, hk, h⟩ := Option.bind_eq_some_iff.1 h
    obtain ⟨ks, hks, h⟩ := Option.bind_eq_some_iff.1 h
    obtain rfl := Option.some.inj h
    show (any room item.reread).bind _ = _
    rw [any_reread hj.1 hk]
    show (anyItems room (rereadItems rest)).bind _ = _
    rw [anyItems_reread hj.2 hks]
    rfl

theorem anyMembers_reread {room : Nat} {members ks : List (String × Json)}
    (hj : MembersInRange members) (h : anyMembers room members = some ks) :
    anyMembers room (rereadMembers members) = some (rereadMembers ks) := by
  match members with
  | [] =>
    obtain rfl := Option.some.inj h
    rfl
  | (name, value) :: rest =>
    obtain ⟨k, hk, h⟩ := Option.bind_eq_some_iff.1 h
    obtain ⟨ks, hks, h⟩ := Option.bind_eq_some_iff.1 h
    obtain rfl := Option.some.inj h
    show (any room value.reread).bind _ = _
    rw [any_reread hj.1 hk]
    show (anyMembers room (rereadMembers rest)).bind _ = _
    rw [anyMembers_reread hj.2 hks]
    rfl

end

theorem anyItems_of_forall {room : Nat} {items : List Json}
    (h : ∀ j ∈ items, any room j = some j) : anyItems room items = some items := by
  induction items with
  | nil => rfl
  | cons item rest ih =>
    rw [anyItems, h item (.head rest), ih fun j hj => h j (.tail item hj)]
    rfl

theorem anyMembers_of_forall {room : Nat} {members : List (String × Json)}
    (h : ∀ m ∈ members, any room m.2 = some m.2) : anyMembers room members = some members := by
  induction members with
  | nil => rfl
  | cons m rest ih =>
    rw [anyMembers, h m (.head rest), ih fun n hn => h n (.tail m hn)]
    rfl

mutual

/-- What was read is read as itself, and its numbers were read. -/
theorem any_of_any {room : Nat} {j k : Json} (h : any room j = some k) :
    any room k = some k ∧ (j.InRange → k.InRange) := by
  match room, j with
  | _, .null | _, .bool _ | _, .string _ | _, .number _ =>
    obtain rfl := Option.some.inj h
    exact ⟨rfl, id⟩
  | 0, .array _ | 0, .object _ | _, .unreadable => exact nomatch h
  | room + 1, .array items =>
    obtain ⟨ks, hks, rfl⟩ := Option.map_eq_some_iff.1 h
    obtain ⟨hread, hrange⟩ := any_of_anyItems hks
    refine ⟨?_, fun hj => itemsInRange_iff.2 (hrange hj)⟩
    show (anyItems room ks).map _ = _
    rw [anyItems_of_forall hread]
    rfl
  | room + 1, .object members =>
    obtain ⟨ks, hks, rfl⟩ := Option.map_eq_some_iff.1 h
    obtain ⟨hread, hrange⟩ := any_of_anyMembers hks
    refine ⟨?_, fun hj => membersInRange_iff.2 fun m hm =>
      hrange hj m (Sorted.mem_of_mem_ofList hm)⟩
    show (anyMembers room (Sorted.ofList ks)).map _ = _
    rw [anyMembers_of_forall fun m hm => hread m (Sorted.mem_of_mem_ofList hm),
      Option.map_some, Sorted.ofList_of_pairwise (Sorted.pairwise_ofList ks)]

/-- What is read from items would be read again as it is. -/
theorem any_of_anyItems {room : Nat} {items ks : List Json} (h : anyItems room items = some ks) :
    (∀ k ∈ ks, any room k = some k) ∧ (ItemsInRange items → ∀ k ∈ ks, k.InRange) := by
  match items with
  | [] =>
    obtain rfl := Option.some.inj h
    exact ⟨nofun, fun _ => nofun⟩
  | item :: rest =>
    obtain ⟨k, hk, h⟩ := Option.bind_eq_some_iff.1 h
    obtain ⟨ks, hks, h⟩ := Option.bind_eq_some_iff.1 h
    obtain rfl := Option.some.inj h
    obtain ⟨hitem, hitem'⟩ := any_of_any hk
    obtain ⟨hrest, hrest'⟩ := any_of_anyItems hks
    exact ⟨List.forall_mem_cons.2 ⟨hitem, hrest⟩,
      fun hj => List.forall_mem_cons.2 ⟨hitem' hj.1, hrest' hj.2⟩⟩

theorem any_of_anyMembers {room : Nat} {members ks : List (String × Json)}
    (h : anyMembers room members = some ks) :
    (∀ m ∈ ks, any room m.2 = some m.2) ∧ (MembersInRange members → ∀ m ∈ ks, m.2.InRange) := by
  match members with
  | [] =>
    obtain rfl := Option.some.inj h
    exact ⟨nofun, fun _ => nofun⟩
  | (name, value) :: rest =>
    obtain ⟨k, hk, h⟩ := Option.bind_eq_some_iff.1 h
    obtain ⟨ks, hks, h⟩ := Option.bind_eq_some_iff.1 h
    obtain rfl := Option.some.inj h
    obtain ⟨hvalue, hvalue'⟩ := any_of_any hk
    obtain ⟨hrest, hrest'⟩ := any_of_anyMembers hks
    exact ⟨List.forall_mem_cons.2 ⟨hvalue, hrest⟩,
      fun hj => List.forall_mem_cons.2 ⟨hvalue' hj.1, hrest' hj.2⟩⟩

end

/-- Only null is read as null. -/
theorem eq_null_of_any {room : Nat} {j : Json} (h : any room j = some .null) : j = .null := by
  unfold any at h
  split at h
  · rfl
  · exact nomatch h
  · exact nomatch h
  · exact nomatch h
  · obtain ⟨_, -, h⟩ := Option.map_eq_some_iff.1 h
    exact nomatch h
  · obtain ⟨_, -, h⟩ := Option.map_eq_some_iff.1 h
    exact nomatch h
  · exact nomatch h

/-- Rereading makes nothing null. -/
theorem reread_ne_null {j : Json} (hj : j.InRange) (h : j ≠ .null) (hread : any room j = some j) :
    j.reread ≠ .null := by
  match j with
  | .null => contradiction
  | .bool _ | .string _ | .array _ | .object _ => exact nofun
  | .number (.int n) =>
    rw [show (Json.number (.int n)).reread = (Number.int n).reread from rfl, Number.reread_int hj]
    exact nofun
  | .number (.float x) =>
    rw [show (Json.number (.float x)).reread = (Number.float x).reread from rfl,
      Number.reread_float hj]
    exact nofun
  | .unreadable => exact nomatch hread

end Reader

end Workplane
