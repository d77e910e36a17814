import Workplane.Proofs.Json.Range
import Workplane.Storage.Kind

/-!
# Records read back
-/

namespace Workplane

/-! ### Records -/

namespace Reader

/-- The members of an object that has only declared ones, none of them twice. -/
theorem members_object {names : List String} {ms : List (String × Json)} (room : Nat)
    (hdeclared : ∀ m ∈ ms, m.1 ∈ names) (hnodup : (ms.map (·.1)).Nodup) :
    members names (room + 1) (.object ms) = some ⟨false, room, ms⟩ := by
  have hfilter : (ms.filter fun m => names.contains m.1) = ms :=
    List.filter_eq_self.2 fun m hm => by simpa using hdeclared m hm
  unfold members
  simp only [hfilter, hnodup, if_true]

theorem lookup_mem {name : String} {ms : List (String × Json)} {j : Json}
    (h : ms.lookup name = some j) : (name, j) ∈ ms := by
  induction ms with
  | nil => exact nomatch h
  | cons m rest ih =>
    obtain ⟨n, k⟩ := m
    rw [List.lookup_cons] at h
    split at h
    · rename_i heq
      obtain rfl := Option.some.inj h
      rw [beq_iff_eq.1 heq]
      exact .head rest
    · exact .tail _ (ih h)

namespace Members

/-- Every number of the members is in range. -/
def InRange (m : Members) : Prop := ∀ p ∈ m.found, p.2.InRange

end Members

theorem inRange_members {names : List String} {room : Nat} {j : Json} {m : Members}
    (hj : j.InRange) (h : members names room j = some m) : m.InRange := by
  unfold members at h
  split at h
  · simp only at h
    split at h
    · obtain rfl := Option.some.inj h
      exact fun p hp => Json.membersInRange_iff.1 hj p (List.mem_of_mem_filter hp)
    · exact nomatch h
  · split at h
    · obtain rfl := Option.some.inj h
      exact fun p hp => Json.itemsInRange_iff.1 hj p.2 (List.of_mem_zip hp).2
    · exact nomatch h
  · exact nomatch h

/-- Members are read one level deeper. -/
theorem room_members {names : List String} {room : Nat} {j : Json} {m : Members}
    (h : members names (room + 1) j = some m) : m.room = room := by
  cases j with
  | object ms =>
    unfold members at h
    simp only at h
    split at h
    · obtain rfl := Option.some.inj h
      rfl
    · exact nomatch h
  | array items =>
    unfold members at h
    simp only at h
    split at h
    · obtain rfl := Option.some.inj h
      rfl
    · exact nomatch h
  | null | bool _ | number _ | string _ | unreadable => exact nomatch h

/-- What a member that must be present is read from. -/
theorem Members.exists_of_required {m : Members} {name : String} {r : Reader α} {a : α}
    (h : m.required name r = some a) : ∃ j, (name, j) ∈ m.found ∧ r m.room j = some a := by
  obtain ⟨j, hj, ha⟩ := Option.bind_eq_some_iff.1 h
  exact ⟨j, lookup_mem hj, ha⟩

/-- A member with a default is the default or read. -/
theorem Members.of_withDefault {m : Members} {name : String} {default : α} {r : Reader α} {a : α}
    (h : m.withDefault name default r = some a) :
    a = default ∨ ∃ j, (name, j) ∈ m.found ∧ r m.room j = some a := by
  unfold withDefault at h
  split at h
  · exact Or.inr ⟨_, lookup_mem ‹_›, h⟩
  · exact Or.inl (Option.some.inj h).symm

/-- A text that is left out when it is empty. -/
theorem Members.withDefault_isEmpty {m : Members} {name s : String}
    (h : m.found.lookup name = if s.isEmpty then none else some (.string s)) :
    m.withDefault name "" text = some s := by
  rw [Members.withDefault, h]
  by_cases hs : s.isEmpty = true
  · rw [if_pos hs, String.isEmpty_iff.1 hs]
  · rw [if_neg hs]
    rfl

/-- A member that is left out when there is no value. -/
theorem Members.omittable_map {m : Members} {name : String} {r : Reader α} {value : Option α}
    (encode : α → Json) (h : m.found.lookup name = value.map encode)
    (hr : ∀ a, value = some a → nullable r m.room (encode a) = some (some a)) :
    m.omittable name r = some value := by
  rw [Members.omittable, Members.withDefault, h]
  cases value with
  | none => rfl
  | some a => exact hr a rfl

/-- What a member that may be left out is read from, if it holds a value. -/
theorem Members.exists_of_omittable {m : Members} {name : String} {r : Reader α} {a : α}
    (h : m.omittable name r = some (some a)) :
    ∃ j, (name, j) ∈ m.found ∧ r m.room j = some a := by
  obtain h | ⟨j, hj, hread⟩ := Members.of_withDefault h
  · exact nomatch h
  · unfold nullable at hread
    split at hread
    · exact nomatch hread
    · obtain ⟨a', ha', heq⟩ := Option.map_eq_some_iff.1 hread
      obtain rfl := Option.some.inj heq
      exact ⟨_, hj, ha'⟩

/-- The items of an array of written values that are read one by one. -/
theorem list_map_of_mem {r : Reader α} {encode : α → Json} {room : Nat} {as : List α}
    (h : ∀ a ∈ as, r room (encode a) = some a) :
    list r (room + 1) (.array (as.map encode)) = some as := by
  show (as.map encode).mapM (r room) = some as
  induction as with
  | nil => rfl
  | cons a as ih =>
    rw [List.map_cons, List.mapM_cons, h a (.head as), ih fun a ha => h a (.tail _ ha)]
    rfl

/-- The items of an array of written values. -/
theorem list_map {r : Reader α} {encode : α → Json} {room : Nat}
    (h : ∀ a, r room (encode a) = some a) (as : List α) :
    list r (room + 1) (.array (as.map encode)) = some as :=
  list_map_of_mem fun a _ => h a

/-- What an item of an array is read from. -/
theorem exists_of_list {r : Reader α} {room : Nat} {j : Json} {as : List α}
    (h : list r room j = some as) {a : α} (ha : a ∈ as) : ∃ room' k, r room' k = some a := by
  unfold list at h
  split at h
  · obtain ⟨k, -, hk⟩ := Json.exists_of_mem_mapM h ha
    exact ⟨_, k, hk⟩
  · exact nomatch h

/-! ### Integers -/

theorem int64_toInt (n : Int64) (room : Nat) : int64 room (.int n.toInt) = some n := by
  have hlow := n.le_toInt
  have hhigh := n.toInt_lt
  show (if -2 ^ 63 ≤ n.toInt ∧ n.toInt ≤ 2 ^ 63 - 1 then some n.toInt else none).map _ = _
  rw [if_pos (by omega), Option.map_some, Int64.ofInt_toInt]

theorem uint64_toNat (n : UInt64) (room : Nat) : uint64 room (.int n.toNat) = some n := by
  have hlt := n.toNat_lt
  show (if 0 ≤ (n.toNat : Int) ∧ (n.toNat : Int) ≤ 2 ^ 64 - 1 then some (n.toNat : Int)
    else none).map _ = _
  rw [if_pos (by omega), Option.map_some, Int.toNat_natCast, UInt64.ofNat_toNat]

theorem int32_toInt (n : Int32) (room : Nat) : int32 room (.int n.toInt) = some n := by
  have hlow := n.le_toInt
  have hhigh := n.toInt_lt
  show (if -2 ^ 31 ≤ n.toInt ∧ n.toInt ≤ 2 ^ 31 - 1 then some n.toInt else none).map _ = _
  rw [if_pos (by omega), Option.map_some, Int32.ofInt_toInt]

theorem uint32_toNat (n : UInt32) (room : Nat) : uint32 room (.int n.toNat) = some n := by
  have hlt := n.toNat_lt
  show (if 0 ≤ (n.toNat : Int) ∧ (n.toNat : Int) ≤ 2 ^ 32 - 1 then some (n.toNat : Int)
    else none).map _ = _
  rw [if_pos (by omega), Option.map_some, Int.toNat_natCast, UInt32.ofNat_toNat]

end Reader

theorem Json.reread_int64 (n : Int64) : (Json.int n.toInt).reread = .int n.toInt :=
  Number.reread_int ⟨n.le_toInt, n.toInt_lt.trans (by decide)⟩

theorem Json.reread_int32 (n : Int32) : (Json.int n.toInt).reread = .int n.toInt := by
  have hlow := n.le_toInt
  have hhigh := n.toInt_lt
  exact Number.reread_int ⟨by omega, by omega⟩

theorem Json.reread_natCast {n : Nat} (h : n < 2 ^ 64) : (Json.int n).reread = .int n :=
  Number.reread_int ⟨by omega, by omega⟩

/-- The items of a written array are read as themselves if each of them is. -/
theorem Json.array_map_reread {encode : α → Json} (h : ∀ a, (encode a).reread = encode a)
    (as : List α) : (Json.array (as.map encode)).reread = .array (as.map encode) := by
  show Json.array (Json.rereadItems _) = Json.array _
  rw [Json.rereadItems_eq_map, List.map_map]
  congr 1
  exact List.map_congr_left fun a _ => h a

/-! ### Kinds -/

namespace Kind

/-- A kind whose stored objects are read back. -/
class Lawful (α : Type) [Kind α] where
  /-- The object that a stored object is read as. -/
  reread : α → α
  /-- Every number of the object is in range. -/
  InRange : α → Prop
  toJson_reread {a : α} : InRange a → (toJson a).reread = toJson (reread a)
  inRange_reread {a : α} : InRange a → InRange (reread a)
  objectName_reread (a : α) : objectName (reread a) = objectName a
  inRange_of_reader {room : Nat} {j : Json} {a : α} : j.InRange → reader room j = some a → InRange a
  /-- What was read is written in a form that is read at the same depth. -/
  reader_toJson {room : Nat} {j : Json} {a : α} : 8 ≤ room → j.InRange → reader room j = some a →
    reader room (toJson a) = some a
  reader_reread {room : Nat} {a : α} : 8 ≤ room → InRange a →
    reader room (toJson a) = some a → reader room (toJson (reread a)) = some (reread a)
  /-- What can be read at all is read as itself at any depth at which it can be read. -/
  eq_of_reader {room room' : Nat} {a b : α} : 8 ≤ room' → reader room (toJson a) = some a →
    reader room' (toJson a) = some b → b = a

variable [Kind α] [Lawful α]

/-- The object is read from its document, and its numbers are in range. -/
structure Storable (a : α) : Prop where
  inRange : Lawful.InRange a
  reader_toJson : reader Reader.maxDepth (toJson a) = some a

/-- Whatever a reader has read can be stored. -/
theorem storable_of_reader {j : Json} {a : α} (hj : j.InRange)
    (h : reader Reader.maxDepth j = some a) : Storable a :=
  ⟨Lawful.inRange_of_reader hj h, Lawful.reader_toJson (by decide) hj h⟩

/-- Whatever was decoded can be stored again. -/
theorem storable_of_decode? {b : ByteArray} {a : α} (h : decode? b = some a) : Storable a := by
  obtain ⟨j, hj, ha⟩ := Option.bind_eq_some_iff.1 h
  exact storable_of_reader (Json.inRange_of_ofBytes? hj) ha

theorem Storable.reread {a : α} (h : Storable a) : Storable (Lawful.reread a) :=
  ⟨Lawful.inRange_reread h.inRange, Lawful.reader_reread (by decide) h.inRange h.reader_toJson⟩

/-- A stored object is read back as its reread form. -/
theorem Storable.decode?_encode {a : α} (h : Storable a) :
    decode? (encode a) = some (Lawful.reread a) := by
  rw [decode?, encode, Json.ofBytes?_bytes_eq, Lawful.toJson_reread h.inRange]
  exact h.reread.reader_toJson

end Kind

end Workplane
