/-!
# Key-value stores

A key-value store keeps its entries in the order of their keys.  It counts the changes that were
ever made to it, and every entry carries the number of the change that wrote it, its revision; an
absent key counts as written by change zero.  A writer that gives the revision it has read can
tell that nobody has written in between.
-/

namespace Workplane

-- Byte arrays are compared by core's instance, whatever is in scope beside this module.
attribute [local instance (high)] ByteArray.instDecidableEq

/-- A value under its key. -/
structure Entry where
  key : String
  value : ByteArray
  /-- The number of the change that wrote the value. -/
  revision : UInt64
  deriving DecidableEq

namespace Entry

/-- Puts an entry in the place of its key, over one of the same key. -/
def insert (e : Entry) : List Entry → List Entry
  | [] => [e]
  | f :: rest =>
    if e.key < f.key then e :: f :: rest
    else if e.key = f.key then e :: rest
    else f :: insert e rest

/-- The entries without the one of a key. -/
def erase (key : String) (entries : List Entry) : List Entry :=
  entries.filter fun e => e.key != key

theorem mem_insert {e f : Entry} {entries : List Entry} (h : f ∈ insert e entries) :
    f = e ∨ f ∈ entries := by
  fun_induction insert e entries with
  | case1 => simpa using h
  | case2 => simpa using h
  | case3 g rest _ _ =>
    rcases List.mem_cons.1 h with h | h
    · exact .inl h
    · exact .inr (.tail g h)
  | case4 g rest _ _ ih =>
    rcases List.mem_cons.1 h with rfl | h
    · exact .inr (.head rest)
    · exact (ih h).imp_right (.tail g)

theorem pairwise_insert (e : Entry) {entries : List Entry}
    (h : entries.Pairwise (·.key < ·.key)) : (insert e entries).Pairwise (·.key < ·.key) := by
  fun_induction insert e entries with
  | case1 => exact List.pairwise_singleton _ _
  | case2 f rest hlt =>
    refine List.pairwise_cons.2 ⟨fun g hg => ?_, h⟩
    rcases List.mem_cons.1 hg with rfl | hg
    · exact hlt
    · exact String.lt_trans hlt ((List.pairwise_cons.1 h).1 g hg)
  | case3 f rest _ heq =>
    have h := List.pairwise_cons.1 h
    exact List.pairwise_cons.2 ⟨fun g hg => heq ▸ h.1 g hg, h.2⟩
  | case4 f rest hlt hne ih =>
    have h := List.pairwise_cons.1 h
    refine List.pairwise_cons.2 ⟨fun g hg => ?_, ih h.2⟩
    rcases mem_insert hg with rfl | hg
    · rcases Decidable.em (f.key < g.key) with hfg | hfg
      · exact hfg
      · exact absurd (String.le_antisymm hfg hlt) hne
    · exact h.1 g hg

theorem pairwise_erase (key : String) {entries : List Entry}
    (h : entries.Pairwise (·.key < ·.key)) : (erase key entries).Pairwise (·.key < ·.key) :=
  h.filter _

/-- The entry that was inserted is found under its key. -/
theorem find?_insert_self (e : Entry) (entries : List Entry) :
    (insert e entries).find? (fun f => f.key == e.key) = some e := by
  fun_induction insert e entries with
  | case1 => simp
  | case2 => simp
  | case3 => simp
  | case4 f rest _ hne ih => simpa [Ne.symm hne] using ih

theorem find?_insert_of_ne {e : Entry} {key : String} (h : e.key ≠ key) (entries : List Entry) :
    (insert e entries).find? (fun f => f.key == key) = entries.find? fun f => f.key == key := by
  fun_induction insert e entries with
  | case1 => simp [h]
  | case2 f rest _ => simp [h]
  | case3 f rest _ heq => simp [h, ← heq]
  | case4 f rest _ _ ih => simp [List.find?_cons, ih]

theorem find?_erase_self (key : String) (entries : List Entry) :
    (erase key entries).find? (fun e => e.key == key) = none := by
  simp [erase]

theorem find?_erase_of_ne {key key' : String} (h : key ≠ key') (entries : List Entry) :
    (erase key entries).find? (fun e => e.key == key') = entries.find? fun e => e.key == key' := by
  rw [erase, List.find?_filter]
  congr 1
  funext e
  by_cases he : e.key = key' <;> simp [he, Ne.symm h]

end Entry

/-- Entries in the order of their keys, and the number of changes that led to them. -/
structure KeyStore where
  revision : UInt64
  entries : List Entry
  sorted : entries.Pairwise (·.key < ·.key)

/-- Whether a conditional write took place, and the revision of its key afterwards. -/
structure Swap where
  written : Bool
  revision : UInt64
  deriving DecidableEq

namespace KeyStore

/-- The store that nothing was ever written to. -/
def empty : KeyStore := ⟨0, [], .nil⟩

/-! ### Reading -/

/-- The entry of a key. -/
def get? (s : KeyStore) (key : String) : Option Entry :=
  s.entries.find? fun e => e.key == key

/-- The revision of a key, zero if it is absent. -/
def revisionOf (s : KeyStore) (key : String) : UInt64 :=
  match s.get? key with
  | some e => e.revision
  | none => 0

/-- `start` is at the front of `key`. -/
def isUnder (start key : String) : Bool :=
  start.toList.isPrefixOf key.toList

/-- The entries whose key starts with `start`, which stand together in the order of keys. -/
def list (s : KeyStore) (start : String) : List Entry :=
  (s.entries.dropWhile fun e => decide (e.key < start)).takeWhile fun e => isUnder start e.key

/-! ### Writing -/

/-- The number of the next change; the count stops at the end of its range. -/
def nextRevision (s : KeyStore) : UInt64 :=
  if s.revision + 1 = 0 then s.revision else s.revision + 1

/-- The store after a value was written, whatever its key held. -/
def write (s : KeyStore) (key : String) (value : ByteArray) : KeyStore where
  revision := s.nextRevision
  entries := Entry.insert ⟨key, value, s.nextRevision⟩ s.entries
  sorted := Entry.pairwise_insert _ s.sorted

/-- Writes a value if the key has the expected revision. -/
def compareAndSwap (s : KeyStore) (key : String) (expected : UInt64) (value : ByteArray) :
    Swap × KeyStore :=
  if s.revisionOf key = expected then (⟨true, s.nextRevision⟩, s.write key value)
  else (⟨false, s.revisionOf key⟩, s)

/-- Removes a key; the first component tells whether it was there. -/
def delete (s : KeyStore) (key : String) : Bool × KeyStore :=
  if (s.get? key).isSome then
    (true, ⟨s.nextRevision, Entry.erase key s.entries, Entry.pairwise_erase key s.sorted⟩)
  else (false, s)

/-! ### What a change leaves -/

/-- What was written is there, with the next revision. -/
theorem get?_write_self (s : KeyStore) (key : String) (value : ByteArray) :
    (s.write key value).get? key = some ⟨key, value, s.nextRevision⟩ :=
  Entry.find?_insert_self ⟨key, value, s.nextRevision⟩ s.entries

/-- A write touches no other key. -/
theorem get?_write_of_ne {key key' : String} (h : key ≠ key') (s : KeyStore) (value : ByteArray) :
    (s.write key value).get? key' = s.get? key' :=
  Entry.find?_insert_of_ne h s.entries

theorem get?_delete_self (s : KeyStore) (key : String) : (s.delete key).2.get? key = none := by
  rw [delete]
  split
  · exact Entry.find?_erase_self key s.entries
  · simpa using ‹¬(s.get? key).isSome›

/-- A deletion touches no other key. -/
theorem get?_delete_of_ne {key key' : String} (h : key ≠ key') (s : KeyStore) :
    (s.delete key).2.get? key' = s.get? key' := by
  rw [delete]
  split
  · exact Entry.find?_erase_of_ne h s.entries
  · rfl

end KeyStore

end Workplane
