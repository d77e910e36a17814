import Workplane.Proofs.Json.Range

/-!
# The depth of a document

A document of any shape is read exactly if its arrays and objects are nested no deeper than the
levels that are left, and then with the same result whatever the number of levels is
(`Reader.any_of_depth_le`).  Writing and reading a document keeps its depth (`Json.depth_reread`).
-/

namespace Workplane

namespace Json

mutual

/-- The number of arrays and objects around the innermost part of a document. -/
def depth : Json → Nat
  | null | bool _ | number _ | string _ | unreadable => 0
  | array items => depthOfItems items + 1
  | object members => depthOfMembers members + 1

/-- The depth of the deepest item. -/
def depthOfItems : List Json → Nat
  | [] => 0
  | item :: rest => max item.depth (depthOfItems rest)

/-- The depth of the deepest member. -/
def depthOfMembers : List (String × Json) → Nat
  | [] => 0
  | (_, value) :: rest => max value.depth (depthOfMembers rest)

end

theorem depth_le_of_mem {members : List (String × Json)} {m : String × Json} (hm : m ∈ members) :
    m.2.depth ≤ depthOfMembers members := by
  induction members with
  | nil => exact absurd hm List.not_mem_nil
  | cons first rest ih =>
    show _ ≤ max first.2.depth (depthOfMembers rest)
    rcases List.mem_cons.1 hm with rfl | hm
    · exact Nat.le_max_left _ _
    · exact (ih hm).trans (Nat.le_max_right _ _)

theorem depth_number_reread {n : Number} (h : n.InRange) : n.reread.depth = 0 := by
  cases n with
  | int n =>
    rw [Number.reread_int h]
    rfl
  | float x =>
    rw [Number.reread_float h]
    rfl

mutual

/-- Reading a written document again keeps its depth. -/
theorem depth_reread {j : Json} (h : j.InRange) : j.reread.depth = j.depth := by
  match j with
  | .null | .bool _ | .string _ | .unreadable => rfl
  | .number n => exact depth_number_reread h
  | .array items =>
    show depthOfItems (rereadItems items) + 1 = depthOfItems items + 1
    rw [depthOfItems_reread h]
  | .object members =>
    show depthOfMembers (rereadMembers members) + 1 = depthOfMembers members + 1
    rw [depthOfMembers_reread h]

theorem depthOfItems_reread {items : List Json} (h : ItemsInRange items) :
    depthOfItems (rereadItems items) = depthOfItems items := by
  match items with
  | [] => rfl
  | item :: rest =>
    show max item.reread.depth (depthOfItems (rereadItems rest)) = _
    rw [depth_reread h.1, depthOfItems_reread h.2]
    rfl

theorem depthOfMembers_reread {members : List (String × Json)} (h : MembersInRange members) :
    depthOfMembers (rereadMembers members) = depthOfMembers members := by
  match members with
  | [] => rfl
  | (name, value) :: rest =>
    show max value.reread.depth (depthOfMembers (rereadMembers rest)) = _
    rw [depth_reread h.1, depthOfMembers_reread h.2]
    rfl

end

end Json

namespace Reader

open Json

mutual

/-- What was read is not too deep, and is read the same with any levels that are enough for it. -/
theorem any_of_depth_le {room : Nat} {j k : Json} (h : any room j = some k) :
    j.depth ≤ room ∧ ∀ room', j.depth ≤ room' → any room' j = some k := by
  match room, j with
  | _, .null | _, .bool _ | _, .string _ | _, .number _ =>
    obtain rfl := Option.some.inj h
    exact ⟨Nat.zero_le _, fun _ _ => rfl⟩
  | 0, .array _ | 0, .object _ | _, .unreadable => exact nomatch h
  | room + 1, .array items =>
    obtain ⟨ks, hks, rfl⟩ := Option.map_eq_some_iff.1 h
    obtain ⟨hle, hread⟩ := anyItems_of_depth_le hks
    refine ⟨Nat.succ_le_succ hle, fun room' hroom => ?_⟩
    obtain ⟨room', rfl⟩ : ∃ r, room' = r + 1 := ⟨room' - 1, (Nat.sub_add_cancel
      (Nat.le_trans (Nat.le_add_left 1 _) hroom)).symm⟩
    show (anyItems room' items).map _ = _
    rw [hread room' (Nat.le_of_succ_le_succ hroom)]
    rfl
  | room + 1, .object members =>
    obtain ⟨ks, hks, rfl⟩ := Option.map_eq_some_iff.1 h
    obtain ⟨hle, hread⟩ := anyMembers_of_depth_le hks
    refine ⟨Nat.succ_le_succ hle, fun room' hroom => ?_⟩
    obtain ⟨room', rfl⟩ : ∃ r, room' = r + 1 := ⟨room' - 1, (Nat.sub_add_cancel
      (Nat.le_trans (Nat.le_add_left 1 _) hroom)).symm⟩
    show (anyMembers room' members).map _ = _
    rw [hread room' (Nat.le_of_succ_le_succ hroom)]
    rfl

theorem anyItems_of_depth_le {room : Nat} {items ks : List Json}
    (h : anyItems room items = some ks) :
    depthOfItems items ≤ room ∧
      ∀ room', depthOfItems items ≤ room' → anyItems room' items = some ks := by
  match items with
  | [] =>
    obtain rfl := Option.some.inj h
    exact ⟨Nat.zero_le _, fun _ _ => rfl⟩
  | item :: rest =>
    obtain ⟨k, hk, h⟩ := Option.bind_eq_some_iff.1 h
    obtain ⟨ks, hks, h⟩ := Option.bind_eq_some_iff.1 h
    obtain rfl := Option.some.inj h
    obtain ⟨hle, hread⟩ := any_of_depth_le hk
    obtain ⟨hle', hread'⟩ := anyItems_of_depth_le hks
    refine ⟨Nat.max_le.2 ⟨hle, hle'⟩, fun room' hroom => ?_⟩
    obtain ⟨hitem, hrest⟩ := Nat.max_le.1 hroom
    rw [anyItems, hread room' hitem, hread' room' hrest]
    rfl

theorem anyMembers_of_depth_le {room : Nat} {members ks : List (String × Json)}
    (h : anyMembers room members = some ks) :
    depthOfMembers members ≤ room ∧
      ∀ room', depthOfMembers members ≤ room' → anyMembers room' members = some ks := by
  match members with
  | [] =>
    obtain rfl := Option.some.inj h
    exact ⟨Nat.zero_le _, fun _ _ => rfl⟩
  | (name, value) :: rest =>
    obtain ⟨k, hk, h⟩ := Option.bind_eq_some_iff.1 h
    obtain ⟨ks, hks, h⟩ := Option.bind_eq_some_iff.1 h
    obtain rfl := Option.some.inj h
    obtain ⟨hle, hread⟩ := any_of_depth_le hk
    obtain ⟨hle', hread'⟩ := anyMembers_of_depth_le hks
    refine ⟨Nat.max_le.2 ⟨hle, hle'⟩, fun room' hroom => ?_⟩
    obtain ⟨hvalue, hrest⟩ := Nat.max_le.1 hroom
    rw [anyMembers, hread room' hvalue, hread' room' hrest]
    rfl

end

end Reader

end Workplane
