import Workplane.Proofs.KeyStore.Listing
import Workplane.Proofs.KeyStore.Revisions
import Workplane.Proofs.Objects.Records
import Workplane.Storage.Repository

/-!
# Objects in a store

`Repository.Stored` relates a store to the objects that a repository finds in it.  A repository is
clean (`Repository.IsClean`) when every entry under its root holds an object of its kind under the
name of that object, so that a listing shows all of them (`Repository.IsClean.mem_listed`).  A
write or a deletion of one object changes what its own repository finds at that name
(`Repository.stored_write`, `Repository.stored_delete`) and nothing that a repository apart from it
finds.
-/

namespace Workplane

namespace Repository

variable {α β : Type} [Kind α] [Kind β] {r : Repository α} {r' : Repository β} {s : KeyStore}

/-! ### Keys -/

/-- Names have their own keys. -/
theorem key_injective (r : Repository α) {name name' : String} (h : r.key name = r.key name') :
    name = name' := by
  have h := congrArg String.toList h
  rw [key, key, String.toList_append, String.toList_append] at h
  exact String.toList_inj.1 (List.append_cancel_left h)

/-- No key belongs to both repositories. -/
def Apart (r : Repository α) (r' : Repository β) : Prop :=
  ∀ name name', r.key name ≠ r'.key name'

theorem Apart.symm (h : r.Apart r') : r'.Apart r :=
  fun name name' heq => h name' name heq.symm

/-- Repositories of the same scope are apart if the plural names of their kinds start with
different letters. -/
theorem apart_of_scope_eq (hscope : r.scope = r'.scope)
    (hplural : ∀ rest rest' : List Char,
      (Kind.plural α).toList ++ rest ≠ (Kind.plural β).toList ++ rest') : r.Apart r' := by
  intro name name' heq
  have h := congrArg String.toList heq
  unfold key root at h
  rw [hscope] at h
  simp only [String.toList_append, List.append_assoc, toString] at h
  exact hplural _ _ (List.append_cancel_left (List.append_cancel_left (List.append_cancel_left h)))

/-- The parts of a key. -/
theorem toList_key (r : Repository α) (name : String) :
    (r.key name).toList =
      '/' :: (r.scope.toList ++ '/' :: ((Kind.plural α).toList ++ '/' :: name.toList)) := by
  unfold key root
  simp only [String.toList_append, toString, List.append_assoc]
  rfl

/-- What stands before the first slash of a text is determined by the text. -/
theorem eq_of_append_slash_eq {xs ys us vs : List Char} (hxs : '/' ∉ xs) (hys : '/' ∉ ys)
    (h : xs ++ '/' :: us = ys ++ '/' :: vs) : xs = ys ∧ us = vs := by
  induction xs generalizing ys with
  | nil =>
    cases ys with
    | nil => exact ⟨rfl, (List.cons.inj h).2⟩
    | cons y ys =>
      obtain rfl : '/' = y := (List.cons.inj h).1
      exact absurd (.head ys) hys
  | cons x xs ih =>
    cases ys with
    | nil =>
      obtain rfl : x = '/' := (List.cons.inj h).1
      exact absurd (.head xs) hxs
    | cons y ys =>
      obtain ⟨rfl, htail⟩ := List.cons.inj h
      have hxs' : '/' ∉ xs := fun hmem => hxs (.tail x hmem)
      have hys' : '/' ∉ ys := fun hmem => hys (.tail x hmem)
      obtain ⟨rfl, rfl⟩ := ih hxs' hys' htail
      exact ⟨rfl, rfl⟩

/-- A key tells the kind of its repository among those of one scope. -/
theorem plural_eq_of_key_eq (hscope : r.scope = r'.scope) (hα : '/' ∉ (Kind.plural α).toList)
    (hβ : '/' ∉ (Kind.plural β).toList) {name name' : String} (h : r.key name = r'.key name') :
    Kind.plural α = Kind.plural β := by
  have hchars := congrArg String.toList h
  rw [toList_key, toList_key, hscope] at hchars
  have hrest := (List.cons.inj (List.append_cancel_left (List.cons.inj hchars).2)).2
  exact String.toList_inj.1 (eq_of_append_slash_eq hα hβ hrest).1

/-- Kinds of different names are kept apart. -/
theorem apart_of_plural_ne (hscope : r.scope = r'.scope) (hα : '/' ∉ (Kind.plural α).toList)
    (hβ : '/' ∉ (Kind.plural β).toList) (hne : Kind.plural α ≠ Kind.plural β) : r.Apart r' :=
  fun _ _ h => hne (plural_eq_of_key_eq hscope hα hβ h)

/-- A key tells its scope among those without slashes. -/
theorem scope_eq_of_key_eq (hr : '/' ∉ r.scope.toList) (hr' : '/' ∉ r'.scope.toList)
    {name name' : String} (h : r.key name = r'.key name') : r.scope = r'.scope := by
  have hchars := congrArg String.toList h
  rw [toList_key, toList_key] at hchars
  exact String.toList_inj.1 (eq_of_append_slash_eq hr hr' (List.cons.inj hchars).2).1

/-! ### Objects -/

/-- The store holds an object under a name. -/
def Stored (r : Repository α) (s : KeyStore) (name : String) (a : α) : Prop :=
  ∃ e, s.get? (r.key name) = some e ∧ Kind.decode? e.value = some a

/-- Every entry of the repository holds an object under the name of the object. -/
def IsClean (r : Repository α) (s : KeyStore) : Prop :=
  ∀ name e, s.get? (r.key name) = some e →
    ∃ a : α, Kind.decode? e.value = some a ∧ Kind.objectName a = name

/-- At most one object is stored under a name. -/
theorem Stored.eq {name : String} {a a' : α} (h : r.Stored s name a) (h' : r.Stored s name a') :
    a = a' := by
  obtain ⟨e, he, ha⟩ := h
  obtain ⟨e', he', ha'⟩ := h'
  obtain rfl := Option.some.inj (he.symm.trans he')
  exact Option.some.inj (ha.symm.trans ha')

theorem Stored.storable [Kind.Lawful α] {name : String} {a : α} (h : r.Stored s name a) :
    Kind.Storable a := by
  obtain ⟨e, -, ha⟩ := h
  exact Kind.storable_of_decode? ha

theorem IsClean.objectName_eq (h : r.IsClean s) {name : String} {a : α} (ha : r.Stored s name a) :
    Kind.objectName a = name := by
  obtain ⟨e, he, hdecode⟩ := ha
  obtain ⟨a', ha', hname⟩ := h name e he
  obtain rfl := Option.some.inj (hdecode.symm.trans ha')
  exact hname

/-- In a clean store every entry is an object. -/
theorem IsClean.exists_stored (h : r.IsClean s) {name : String}
    (hsome : (s.get? (r.key name)).isSome = true) : ∃ a, r.Stored s name a := by
  obtain ⟨e, he⟩ := Option.isSome_iff_exists.1 hsome
  obtain ⟨a, ha, -⟩ := h name e he
  exact ⟨a, e, he, ha⟩

theorem isClean_empty (r : Repository α) : r.IsClean .empty :=
  fun _ _ he => nomatch he

theorem not_stored_empty {name : String} {a : α} : ¬r.Stored .empty name a :=
  fun ⟨_, he, _⟩ => nomatch he

/-- The listing of a repository shows an object exactly if it is stored. -/
theorem mem_listed {a : α} :
    a ∈ (s.list r.root).filterMap (fun e => Kind.decode? e.value) ↔ ∃ name, r.Stored s name a := by
  rw [List.mem_filterMap]
  constructor
  · rintro ⟨e, he, ha⟩
    obtain ⟨hget, hunder⟩ := KeyStore.mem_list.1 he
    obtain ⟨name, hkey⟩ := KeyStore.isUnder_iff.1 hunder
    exact ⟨name, e, by rw [key, ← hkey, hget], ha⟩
  · rintro ⟨name, e, he, ha⟩
    have hkey := KeyStore.key_of_get? he
    refine ⟨e, KeyStore.mem_list.2 ⟨by rw [hkey, he], ?_⟩, ha⟩
    exact KeyStore.isUnder_iff.2 ⟨name, hkey⟩

/-! ### Changes -/

section Entries

variable {P : String → Entry → Prop} {name : String} {value : ByteArray}

/-- What holds of every entry of a repository holds of every entry after a write of one for which it
holds. -/
theorem forall_write (h : ∀ name e, s.get? (r.key name) = some e → P name e)
    (hp : P name ⟨r.key name, value, s.nextRevision⟩) (name' : String) (e : Entry)
    (he : (s.write (r.key name) value).get? (r.key name') = some e) : P name' e := by
  rcases Decidable.em (name = name') with rfl | hne
  · rw [KeyStore.get?_write_self] at he
    obtain rfl := Option.some.inj he
    exact hp
  · rw [KeyStore.get?_write_of_ne fun heq => hne (r.key_injective heq)] at he
    exact h name' e he

theorem forall_delete (h : ∀ name e, s.get? (r.key name) = some e → P name e) (key : String)
    (name : String) (e : Entry) (he : (s.delete key).2.get? (r.key name) = some e) : P name e := by
  rcases Decidable.em (key = r.key name) with rfl | hne
  · rw [KeyStore.get?_delete_self] at he
    exact absurd he (Option.some_ne_none e).symm
  · rw [KeyStore.get?_delete_of_ne hne] at he
    exact h name e he

end Entries

section Changes

variable [Kind.Lawful α] {name : String} {a : α}

/-- What is written is stored as it will be read, and the other names keep what they had. -/
theorem stored_write (ha : Kind.Storable a) {name' : String} {a' : α} :
    r.Stored (s.write (r.key name) (Kind.encode a)) name' a' ↔
      if name = name' then a' = Kind.Lawful.reread a else r.Stored s name' a' := by
  unfold Stored
  split
  · rename_i heq
    subst heq
    rw [KeyStore.get?_write_self]
    constructor
    · rintro ⟨e, he, hdecode⟩
      obtain rfl := Option.some.inj he
      exact Option.some.inj (hdecode.symm.trans ha.decode?_encode)
    · rintro rfl
      exact ⟨_, rfl, ha.decode?_encode⟩
  · rename_i hne
    rw [KeyStore.get?_write_of_ne fun heq => hne (r.key_injective heq)]

/-- An object that is stored under its own name keeps a store clean. -/
theorem IsClean.write (h : r.IsClean s) (ha : Kind.Storable a) (hname : Kind.objectName a = name) :
    r.IsClean (s.write (r.key name) (Kind.encode a)) := by
  have hwritten := (Kind.Lawful.objectName_reread a).trans hname
  exact forall_write h ⟨Kind.Lawful.reread a, ha.decode?_encode, hwritten⟩

end Changes

/-- Only the name that is deleted loses its object. -/
theorem stored_delete {name name' : String} {a : α} :
    r.Stored (s.delete (r.key name)).2 name' a ↔ name ≠ name' ∧ r.Stored s name' a := by
  unfold Stored
  rcases Decidable.em (name = name') with rfl | hne
  · rw [KeyStore.get?_delete_self]
    exact ⟨fun ⟨_, he, _⟩ => (nomatch he), fun h => absurd rfl h.1⟩
  · rw [KeyStore.get?_delete_of_ne fun heq => hne (r.key_injective heq)]
    exact (and_iff_right hne).symm

theorem IsClean.delete (h : r.IsClean s) (key : String) : r.IsClean (s.delete key).2 :=
  forall_delete h key

/-! ### What other repositories see -/

/-- Two stores have the same entries at the keys of a repository. -/
def Agrees (r : Repository α) (s s' : KeyStore) : Prop :=
  ∀ name, s'.get? (r.key name) = s.get? (r.key name)

variable {s' : KeyStore}

/-- Stores that agree have the same objects. -/
theorem Agrees.stored (h : r.Agrees s s') {name : String} {a : α} :
    r.Stored s' name a ↔ r.Stored s name a := by
  unfold Stored
  rw [h name]

theorem Agrees.isClean (h : r.Agrees s s') (hs : r.IsClean s) : r.IsClean s' :=
  fun name e he => hs name e (h name ▸ he)

/-- A write elsewhere does not concern a repository. -/
theorem Apart.agrees_write (h : r.Apart r') (name : String) (value : ByteArray) :
    r'.Agrees s (s.write (r.key name) value) :=
  fun name' => KeyStore.get?_write_of_ne (h name name') s value

theorem Apart.agrees_delete (h : r.Apart r') (name : String) :
    r'.Agrees s (s.delete (r.key name)).2 :=
  fun name' => KeyStore.get?_delete_of_ne (h name name') s

end Repository

end Workplane
