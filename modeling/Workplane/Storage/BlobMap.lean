/-!
# Blobs in memory

Bytes under keys, where a later blob takes the place of an earlier one of the same key.
-/

namespace Workplane

/-- Blobs under their keys, each key once. -/
structure BlobMap where
  blobs : List (String × ByteArray)

namespace BlobMap

/-- No blobs. -/
def empty : BlobMap := ⟨[]⟩

/-- The blob under a key. -/
def get? (m : BlobMap) (key : String) : Option ByteArray :=
  m.blobs.lookup key

/-- Puts a blob under a key, in the place of any other. -/
def put (m : BlobMap) (key : String) (data : ByteArray) : BlobMap :=
  ⟨(key, data) :: m.blobs.filter fun b => b.1 != key⟩

theorem get?_put_self (m : BlobMap) (key : String) (data : ByteArray) :
    (m.put key data).get? key = some data := by
  simp [put, get?]

/-- What is filed under a key can be looked up after another key was filtered out. -/
theorem lookup_filter_of_ne {κ β : Type} [BEq κ] [LawfulBEq κ] {key key' : κ} (h : key ≠ key')
    (members : List (κ × β)) :
    (members.filter fun m => m.1 != key).lookup key' = members.lookup key' := by
  have hne : (key' == key) = false := beq_eq_false_iff_ne.2 (Ne.symm h)
  induction members with
  | nil => rfl
  | cons m rest ih =>
    obtain ⟨name, value⟩ := m
    by_cases hm : name = key
    · simp [hm, ih, List.lookup_cons, hne]
    · simp [hm, ih, List.lookup_cons]

theorem get?_put_of_ne {key key' : String} (h : key ≠ key') (m : BlobMap) (data : ByteArray) :
    (m.put key data).get? key' = m.get? key' := by
  have hne : (key' == key) = false := by simp [Ne.symm h]
  simp [put, get?, List.lookup_cons, hne, lookup_filter_of_ne h]

end BlobMap

end Workplane
