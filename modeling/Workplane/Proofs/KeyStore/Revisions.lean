import Mathlib.Algebra.Order.Ring.Nat
import Workplane.Storage.KeyStore

/-!
# Revisions of a store

A store is valid when every entry carries the number of a change that took place
(`KeyStore.Valid`).  While the count of changes has not reached the end of its range
(`KeyStore.Counts`), a change of a key gives it a revision above every earlier one, or removes it.
So a key that was changed since it was read never shows the revision again that was read then
(`KeyStore.MovedOn`): a writer that names this revision cannot mistake a later value for the one
it has seen, not even one that was written after a deletion.
-/

namespace Workplane.KeyStore

/-! ### Valid stores -/

/-- Every entry was written by a change that took place. -/
def Valid (s : KeyStore) : Prop :=
  ∀ e ∈ s.entries, 0 < e.revision.toNat ∧ e.revision.toNat ≤ s.revision.toNat

/-- The count of changes can still grow. -/
def Counts (s : KeyStore) : Prop :=
  s.revision.toNat + 1 < 2 ^ 64

instance (s : KeyStore) : Decidable s.Counts :=
  inferInstanceAs (Decidable (_ < _))

theorem valid_empty : empty.Valid := by
  intro e he
  simp [empty] at he

/-- Below the largest revision, the next one is one more. -/
theorem toNat_nextRevision_of_counts {s : KeyStore} (h : s.Counts) :
    s.nextRevision.toNat = s.revision.toNat + 1 := by
  unfold Counts at h
  have hsum : (s.revision + 1).toNat = s.revision.toNat + 1 := by
    rw [UInt64.toNat_add]
    exact Nat.mod_eq_of_lt h
  have hne : s.revision + 1 ≠ 0 := by
    intro h0
    have := congrArg UInt64.toNat h0
    rw [hsum] at this
    simp at this
  rw [nextRevision, if_neg hne, hsum]

/-- At the largest revision the counter stands still. -/
theorem nextRevision_of_not_counts {s : KeyStore} (h : ¬s.Counts) :
    s.nextRevision = s.revision := by
  unfold Counts at h
  have hlt := s.revision.toNat_lt
  have hmax : s.revision.toNat + 1 = 2 ^ 64 := by omega
  have h0 : s.revision + 1 = 0 := by
    apply UInt64.toNat_inj.1
    rw [UInt64.toNat_add]
    show (s.revision.toNat + 1) % 2 ^ 64 = 0
    rw [hmax, Nat.mod_self]
  rw [nextRevision, if_pos h0]

/-- The count of changes never goes back, and zero is never the number of a change. -/
theorem le_toNat_nextRevision (s : KeyStore) :
    s.revision.toNat ≤ s.nextRevision.toNat ∧ 0 < s.nextRevision.toNat := by
  rcases Decidable.em s.Counts with h | h
  · rw [toNat_nextRevision_of_counts h]
    omega
  · rw [nextRevision_of_not_counts h]
    unfold Counts at h
    omega

theorem toNat_nextRevision_le (s : KeyStore) : s.nextRevision.toNat ≤ s.revision.toNat + 1 := by
  rcases Decidable.em s.Counts with h | h
  · exact Nat.le_of_eq (toNat_nextRevision_of_counts h)
  · rw [nextRevision_of_not_counts h]
    exact Nat.le_succ _

/-- A write keeps a store valid. -/
theorem Valid.write {s : KeyStore} (h : s.Valid) (key : String) (value : ByteArray) :
    (s.write key value).Valid := by
  intro e he
  have hnext := s.le_toNat_nextRevision
  rcases Entry.mem_insert he with rfl | he
  · exact ⟨hnext.2, Nat.le_refl _⟩
  · exact ⟨(h e he).1, Nat.le_trans (h e he).2 hnext.1⟩

theorem Valid.delete {s : KeyStore} (h : s.Valid) (key : String) : (s.delete key).2.Valid := by
  rw [KeyStore.delete]
  split
  · intro e he
    have he' := h e (List.mem_filter.1 he).1
    exact ⟨he'.1, Nat.le_trans he'.2 s.le_toNat_nextRevision.1⟩
  · exact h

/-! ### The entry of a key -/

theorem mem_of_get? {s : KeyStore} {key : String} {e : Entry} (h : s.get? key = some e) :
    e ∈ s.entries :=
  List.mem_of_find?_eq_some h

theorem key_of_get? {s : KeyStore} {key : String} {e : Entry} (h : s.get? key = some e) :
    e.key = key := by
  simpa using List.find?_some h

theorem revisionOf_of_get? {s : KeyStore} {key : String} {e : Entry} (h : s.get? key = some e) :
    s.revisionOf key = e.revision := by
  rw [revisionOf, h]

/-- In a valid store only an absent key has revision zero. -/
theorem Valid.get?_eq_none {s : KeyStore} (h : s.Valid) {key : String}
    (h0 : s.revisionOf key = 0) : s.get? key = none := by
  rcases hget : s.get? key with _ | e
  · rfl
  · rw [revisionOf_of_get? hget] at h0
    have hpos := (h e (mem_of_get? hget)).1
    rw [h0] at hpos
    exact absurd hpos (Nat.lt_irrefl 0)

theorem revisionOf_of_get?_eq_none {s : KeyStore} {key : String} (h : s.get? key = none) :
    s.revisionOf key = 0 := by
  rw [revisionOf, h]

/-! ### Conditional writes and deletions -/

/-- A swap that expects the revision that is there writes. -/
theorem compareAndSwap_of_eq {s : KeyStore} {key : String} {expected : UInt64}
    (h : s.revisionOf key = expected) (value : ByteArray) :
    s.compareAndSwap key expected value = (⟨true, s.nextRevision⟩, s.write key value) := by
  rw [compareAndSwap, if_pos h]

/-- A swap that expects another revision tells the one that is there, and changes nothing. -/
theorem compareAndSwap_of_ne {s : KeyStore} {key : String} {expected : UInt64}
    (h : s.revisionOf key ≠ expected) (value : ByteArray) :
    s.compareAndSwap key expected value = (⟨false, s.revisionOf key⟩, s) := by
  rw [compareAndSwap, if_neg h]

/-- A deletion takes place exactly if the key is there. -/
theorem delete_existed {s : KeyStore} {key : String} :
    (s.delete key).1 = true ↔ (s.get? key).isSome = true := by
  rw [delete]
  split <;> simp [*]

theorem delete_of_get?_eq_none {s : KeyStore} {key : String} (h : s.get? key = none) :
    s.delete key = (false, s) := by
  rw [delete, h]
  rfl

/-! ### Changes and revisions -/

/-- Since revision `r` was read, the key was written or removed: it is absent, or its value was
written by a later change. -/
def MovedOn (s : KeyStore) (key : String) (r : Nat) : Prop :=
  r ≤ s.revision.toNat ∧ (s.get? key = none ∨ r < (s.revisionOf key).toNat)

/-- A key that was changed does not show its earlier revision. -/
theorem MovedOn.revisionOf_ne {s : KeyStore} {key : String} {r : UInt64}
    (h : s.MovedOn key r.toNat) (hr : 0 < r.toNat) : s.revisionOf key ≠ r := by
  rintro rfl
  rcases h.2 with h | h
  · rw [revisionOf_of_get?_eq_none h] at hr
    exact absurd hr (Nat.lt_irrefl 0)
  · exact absurd h (Nat.lt_irrefl _)

theorem revisionOf_write_self (s : KeyStore) (key : String) (value : ByteArray) :
    (s.write key value).revisionOf key = s.nextRevision :=
  revisionOf_of_get? (get?_write_self s key value)

theorem revisionOf_congr {s s' : KeyStore} {key : String} (h : s'.get? key = s.get? key) :
    s'.revisionOf key = s.revisionOf key := by
  rw [revisionOf, revisionOf, h]

/-- After a write, no revision up to the counter's is the key's any more. -/
theorem movedOn_write {s : KeyStore} (hc : s.Counts) {key : String} {r : Nat}
    (hr : r ≤ s.revision.toNat) (value : ByteArray) : (s.write key value).MovedOn key r := by
  have hnext := toNat_nextRevision_of_counts hc
  refine ⟨?_, Or.inr ?_⟩
  · show r ≤ s.nextRevision.toNat
    omega
  · rw [revisionOf_write_self]
    omega

theorem le_revision_delete (s : KeyStore) (key : String) :
    s.revision.toNat ≤ (s.delete key).2.revision.toNat := by
  rw [delete]
  split
  · exact s.le_toNat_nextRevision.1
  · exact Nat.le_refl _

theorem revision_delete_le (s : KeyStore) (key : String) :
    (s.delete key).2.revision.toNat ≤ s.revision.toNat + 1 := by
  rw [delete]
  split
  · exact s.toNat_nextRevision_le
  · exact Nat.le_succ _

theorem movedOn_delete {s : KeyStore} {key : String} {r : Nat} (hr : r ≤ s.revision.toNat) :
    (s.delete key).2.MovedOn key r :=
  ⟨Nat.le_trans hr (s.le_revision_delete key), Or.inl (s.get?_delete_self key)⟩

/-- Where a key has moved on from a revision, no later write brings it back. -/
theorem MovedOn.write {s : KeyStore} {key : String} {r : Nat} (h : s.MovedOn key r)
    (hc : s.Counts) (key' : String) (value : ByteArray) : (s.write key' value).MovedOn key r := by
  rcases Decidable.em (key' = key) with rfl | hne
  · exact movedOn_write hc h.1 value
  · refine ⟨Nat.le_trans h.1 s.le_toNat_nextRevision.1, ?_⟩
    rw [revisionOf_congr (get?_write_of_ne hne s value), get?_write_of_ne hne]
    exact h.2

theorem MovedOn.delete {s : KeyStore} {key : String} {r : Nat} (h : s.MovedOn key r)
    (key' : String) : (s.delete key').2.MovedOn key r := by
  rcases Decidable.em (key' = key) with rfl | hne
  · exact movedOn_delete h.1
  · refine ⟨Nat.le_trans h.1 (s.le_revision_delete key'), ?_⟩
    rw [revisionOf_congr (get?_delete_of_ne hne s), get?_delete_of_ne hne]
    exact h.2

end Workplane.KeyStore
