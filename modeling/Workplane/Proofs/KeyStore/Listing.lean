import Mathlib.Data.List.TakeWhile
import Workplane.Proofs.Sorted
import Workplane.Proofs.Text.ByteOrder
import Workplane.Storage.KeyStore

/-!
# Listing the keys under a start

The keys that start with a text stand together in the order of keys: none of them is below that
text, and the first key from there on that does not start with it is above all that do.  So a
listing, which skips the entries below the start (`KeyStore.skipped`) and stops at the first that
does not belong (`KeyStore.unread`), is the filter of all entries (`KeyStore.list_eq_filter`).

What is to be listed can also be said without a scan (`KeyStore.IsListing`): of each key whose bytes
start with those of the text the entry that is stored under it, once, and of no other key any.  The
main statement is `KeyStore.listing_complete`: the scan finds this and nothing else, and what it
leaves out at either side does not belong.
-/

namespace Workplane.KeyStore

/-! ### Keys and their fronts -/

/-- A text is not below its own front. -/
theorem not_lt_of_isPrefixOf {start key : List Char} (h : start.isPrefixOf key = true) :
    ¬key < start := by
  induction start generalizing key with
  | nil => exact List.not_lt_nil key
  | cons c start ih =>
    cases key with
    | nil => simp at h
    | cons d key =>
      rw [List.isPrefixOf_cons_cons, Bool.and_eq_true, beq_iff_eq] at h
      obtain ⟨rfl, h⟩ := h
      rw [List.cons_lt_cons_iff]
      rintro (hlt | ⟨-, hlt⟩)
      · exact absurd hlt (Char.lt_irrefl c)
      · exact ih h hlt

/-- Above a text that is not below `start` and does not start with it, nothing starts with it. -/
theorem isPrefixOf_eq_false_of_lt {start key key' : List Char} (hge : ¬key < start)
    (h : start.isPrefixOf key = false) (hlt : key < key') : start.isPrefixOf key' = false := by
  induction start generalizing key key' with
  | nil => simp at h
  | cons c start ih =>
    cases key with
    | nil => exact absurd (List.nil_lt_cons c start) hge
    | cons d key =>
      cases key' with
      | nil => exact absurd hlt (List.not_lt_nil _)
      | cons d' key' =>
        rw [List.cons_lt_cons_iff] at hlt hge
        rw [List.isPrefixOf_cons_cons] at h ⊢
        rcases Decidable.em (c = d') with rfl | hne
        · rw [beq_self_eq_true, Bool.true_and]
          rcases hlt with hlt | ⟨rfl, hlt⟩
          · exact absurd (Or.inl hlt) hge
          · rw [beq_self_eq_true, Bool.true_and] at h
            exact ih (fun hk => hge (Or.inr ⟨rfl, hk⟩)) h hlt
        · rw [beq_eq_false_iff_ne.2 hne, Bool.false_and]

/-- What starts so does not come before. -/
theorem not_lt_of_isUnder {start key : String} (h : isUnder start key = true) : ¬key < start :=
  not_lt_of_isPrefixOf h

/-- Once keys no longer start so, none that comes after does. -/
theorem isUnder_eq_false_of_lt {start key key' : String} (hge : ¬key < start)
    (h : isUnder start key = false) (hlt : key < key') : isUnder start key' = false :=
  isPrefixOf_eq_false_of_lt hge h hlt

/-- A key is under a start exactly if it is the start followed by something. -/
theorem isUnder_iff {start key : String} :
    isUnder start key = true ↔ ∃ rest, key = start ++ rest := by
  unfold isUnder
  rw [List.isPrefixOf_iff_prefix]
  constructor
  · rintro ⟨rest, h⟩
    exact ⟨String.ofList rest, String.toList_inj.1 (by simp [h])⟩
  · rintro ⟨rest, rfl⟩
    exact ⟨rest.toList, by simp⟩

/-- A key is under a start exactly if its bytes start with those of the start. -/
theorem isUnder_iff_bytes {start key : String} :
    isUnder start key = true ↔ bytes start <+: bytes key := by
  rw [bytes_prefix_bytes_iff]
  exact List.isPrefixOf_iff_prefix

/-- Keys under one start are ordered as what follows it. -/
theorem append_lt_append_iff {start rest rest' : String} :
    start ++ rest < start ++ rest' ↔ rest < rest' := by
  simp only [String.lt_iff, String.toList_append]
  induction start.toList with
  | nil => exact Iff.rfl
  | cons c cs ih => rw [List.cons_append, List.cons_append, List.cons_lt_cons_self, ih]

/-! ### What the scan leaves out -/

section Scan

variable {s : KeyStore} {start : String} {entries : List Entry} {e : Entry}

/-- After the first key that is not below the start, none is. -/
theorem not_lt_of_mem_dropWhile (sorted : entries.Pairwise (·.key < ·.key))
    (he : e ∈ entries.dropWhile fun e => decide (e.key < start)) : ¬e.key < start := by
  induction entries with
  | nil => exact absurd he List.not_mem_nil
  | cons f rest ih =>
    have hrest := List.pairwise_cons.1 sorted
    rcases Decidable.em (f.key < start) with hlt | hge
    · rw [List.dropWhile_cons_of_pos (by simpa using hlt)] at he
      exact ih hrest.2 he
    · rw [List.dropWhile_cons_of_neg (by simpa using hge)] at he
      rcases List.mem_cons.1 he with rfl | he
      · exact hge
      · exact fun hlt => hge (String.lt_trans (hrest.1 e he) hlt)

/-- After the first key from the start on that does not belong, none does. -/
theorem isUnder_eq_false_of_mem_dropWhile (sorted : entries.Pairwise (·.key < ·.key))
    (hge : ∀ f ∈ entries, ¬f.key < start)
    (he : e ∈ entries.dropWhile fun e => isUnder start e.key) : isUnder start e.key = false := by
  induction entries with
  | nil => exact absurd he List.not_mem_nil
  | cons f rest ih =>
    have hrest := List.pairwise_cons.1 sorted
    rcases Bool.eq_false_or_eq_true (isUnder start f.key) with hunder | hunder
    · rw [List.dropWhile_cons_of_pos (by simpa using hunder)] at he
      exact ih hrest.2 (fun g hg => hge g (.tail f hg)) he
    · rw [List.dropWhile_cons_of_neg (by simpa using hunder)] at he
      rcases List.mem_cons.1 he with rfl | he
      · exact hunder
      · exact isUnder_eq_false_of_lt (hge f (.head rest)) hunder (hrest.1 e he)

/-- The entries that a listing skips at the front. -/
def skipped (s : KeyStore) (start : String) : List Entry :=
  s.entries.takeWhile fun e => decide (e.key < start)

/-- The entries that a listing does not come to, since it stops at the first of them. -/
def unread (s : KeyStore) (start : String) : List Entry :=
  (s.entries.dropWhile fun e => decide (e.key < start)).dropWhile fun e => isUnder start e.key

/-- The entries are those that are skipped, listed and not read, in this order. -/
theorem skipped_append_list_append_unread (s : KeyStore) (start : String) :
    s.skipped start ++ (s.list start ++ s.unread start) = s.entries := by
  rw [skipped, list, unread, List.takeWhile_append_dropWhile, List.takeWhile_append_dropWhile]

theorem lt_of_mem_skipped (he : e ∈ s.skipped start) : e.key < start :=
  of_decide_eq_true (List.mem_takeWhile_imp (p := fun e : Entry => decide (e.key < start)) he)

theorem isUnder_of_mem_list (he : e ∈ s.list start) : isUnder start e.key = true :=
  List.mem_takeWhile_imp (p := fun e : Entry => isUnder start e.key) he

theorem not_lt_of_mem_unread (he : e ∈ s.unread start) : ¬e.key < start :=
  not_lt_of_mem_dropWhile s.sorted ((List.dropWhile_sublist _).mem he)

/-- What is not read does not start so. -/
theorem isUnder_eq_false_of_mem_unread (he : e ∈ s.unread start) :
    isUnder start e.key = false := by
  refine isUnder_eq_false_of_mem_dropWhile ?_ ?_ he
  · exact s.sorted.sublist (List.dropWhile_sublist _)
  · exact fun f hf => not_lt_of_mem_dropWhile s.sorted hf

end Scan

/-- The listing is the entries whose keys start so. -/
theorem list_eq_filter (s : KeyStore) (start : String) :
    s.list start = s.entries.filter fun e => isUnder start e.key := by
  have hskipped : (s.skipped start).filter (fun e => isUnder start e.key) = [] :=
    List.filter_eq_nil_iff.2 fun e he hunder => not_lt_of_isUnder hunder (lt_of_mem_skipped he)
  have hlist : (s.list start).filter (fun e => isUnder start e.key) = s.list start :=
    List.filter_eq_self.2 fun e he => isUnder_of_mem_list he
  have hunread : (s.unread start).filter (fun e => isUnder start e.key) = [] :=
    List.filter_eq_nil_iff.2 fun e he => by simp [isUnder_eq_false_of_mem_unread he]
  rw [← skipped_append_list_append_unread s start, List.filter_append, List.filter_append, hskipped,
    hlist, hunread, List.nil_append, List.append_nil]

theorem pairwise_list (s : KeyStore) (start : String) :
    (s.list start).Pairwise (·.key < ·.key) := by
  rw [list_eq_filter]
  exact s.sorted.filter _

/-! ### Complete listings -/

/-- What is to be listed for a start. -/
structure IsListing (s : KeyStore) (start : String) (listed : List Entry) : Prop where
  /-- Of a key that starts so its entry as it is stored, once; of any other key nothing. -/
  shown : ∀ key, listed.filter (fun e => e.key == key) =
    if bytes start <+: bytes key then (s.get? key).toList else []
  ascending : listed.Pairwise (bytes ·.key < bytes ·.key)

section Listings

variable {s s' : KeyStore} {start : String} {listed listed' : List Entry} {e : Entry}

theorem isListing_list (s : KeyStore) (start : String) : s.IsListing start (s.list start) where
  shown key := by
    have hkey : ∀ e ∈ (s.get? key).toList, e.key = key := by
      intro e he
      simpa using List.find?_some (Option.mem_toList.1 he)
    rw [list_eq_filter, List.filter_comm, Sorted.filter_eq_toList_find? s.sorted]
    change (s.get? key).toList.filter (fun e => isUnder start e.key) = _
    by_cases hstart : bytes start <+: bytes key
    · rw [if_pos hstart]
      refine List.filter_eq_self.2 fun e he => ?_
      rw [hkey e he, isUnder_iff_bytes]
      exact hstart
    · rw [if_neg hstart]
      refine List.filter_eq_nil_iff.2 fun e he => ?_
      rw [hkey e he, isUnder_iff_bytes]
      exact hstart
  ascending := (s.pairwise_list start).imp fun hlt => bytes_lt_bytes_iff.2 hlt

/-- A listing has an entry exactly if it is stored and its key starts so. -/
theorem IsListing.mem_iff (h : s.IsListing start listed) :
    e ∈ listed ↔ s.get? e.key = some e ∧ isUnder start e.key = true := by
  have hmem : e ∈ listed ↔ e ∈ listed.filter fun f => f.key == e.key := by
    rw [List.mem_filter]
    exact (and_iff_left (beq_self_eq_true e.key)).symm
  rw [hmem, h.shown e.key, isUnder_iff_bytes]
  by_cases hstart : bytes start <+: bytes e.key
  · rw [if_pos hstart, Option.mem_toList]
    exact (and_iff_left hstart).symm
  · rw [if_neg hstart]
    exact iff_of_false List.not_mem_nil fun h => hstart h.2

/-- There is one list of what is to be listed. -/
theorem IsListing.unique (h : s.IsListing start listed) (h' : s.IsListing start listed') :
    listed = listed' :=
  eq_of_ascending h.ascending h'.ascending fun _ => h.mem_iff.trans h'.mem_iff.symm

/-- A listing shows exactly the entries of the keys under its start. -/
theorem mem_list : e ∈ s.list start ↔ s.get? e.key = some e ∧ isUnder start e.key = true :=
  (s.isListing_list start).mem_iff

/-- Stores that have the same entries under a start list them alike. -/
theorem list_eq_of_get?_eq (h : ∀ key, isUnder start key = true → s'.get? key = s.get? key) :
    s'.list start = s.list start := by
  have hlisting : s.IsListing start (s'.list start) := by
    refine ⟨fun key => ?_, (s'.isListing_list start).ascending⟩
    rw [(s'.isListing_list start).shown key]
    by_cases hstart : bytes start <+: bytes key
    · rw [if_pos hstart, if_pos hstart, h key (isUnder_iff_bytes.2 hstart)]
    · rw [if_neg hstart, if_neg hstart]
  exact hlisting.unique (s.isListing_list start)

end Listings

/-- A listing is complete.  Of each key whose bytes start with those of `start` it shows the entry
as it is stored, once, and it shows nothing else, in the order of the bytes of the keys; so it is
the only list of this kind.  The entries that the scan skips are below the start, and those that it
does not come to are above it and do not start so. -/
theorem listing_complete (s : KeyStore) (start : String) :
    (∀ listed, s.list start = listed ↔ s.IsListing start listed) ∧
    s.entries = s.skipped start ++ (s.list start ++ s.unread start) ∧
    (∀ e ∈ s.skipped start, bytes e.key < bytes start) ∧
    ∀ e ∈ s.unread start, bytes start < bytes e.key ∧ ¬bytes start <+: bytes e.key := by
  refine ⟨fun listed => ⟨?_, (s.isListing_list start).unique⟩, ?_, ?_, ?_⟩
  · rintro rfl
    exact s.isListing_list start
  · exact (s.skipped_append_list_append_unread start).symm
  · exact fun e he => bytes_lt_bytes_iff.2 (lt_of_mem_skipped he)
  · intro e he
    have hnot : ¬bytes start <+: bytes e.key := by
      rw [← isUnder_iff_bytes, isUnder_eq_false_of_mem_unread he]
      exact Bool.false_ne_true
    refine ⟨bytes_lt_bytes_iff.2 ?_, hnot⟩
    rcases lt_trichotomy start e.key with hlt | heq | hgt
    · exact hlt
    · exact absurd (heq ▸ List.prefix_refl _) hnot
    · exact absurd hgt (not_lt_of_mem_unread he)

/-- A start that is itself a key and not in ASCII, between keys that do not start so. -/
example :
    (((((empty.write "é/b" ⟨#[1]⟩).write "ê" ⟨#[2]⟩).write "z" ⟨#[3]⟩).write "é" ⟨#[4]⟩).list
      "é").map (fun e => (e.key, e.revision)) = [("é", 4), ("é/b", 1)] := by
  decide

end Workplane.KeyStore
