import Mathlib.Data.List.Forall2
import Workplane.Proofs.KeyStore.Listing
import Workplane.Proofs.Objects.Quotas
import Workplane.Proofs.Objects.Replicas
import Workplane.Proofs.Workspace.Integrity

/-!
# Stores that are alike

Two stores are alike (`KeyStore.Alike`) if they hold the same keys at the same revisions, and values
that differ at most in the values of secrets and in the readings of a clock.  What a call answers is
alike on both, and leaves them alike (`Call.Alike.answer`).

The part of an object that may differ is masked (`Kind.Masked.mask`); objects are alike if they are
the same behind the mask.
-/

namespace Workplane

open Workspace (Config)

/-! ### Objects that are alike -/

/-- A kind of which some part is masked. -/
class Kind.Masked (α : Type) [Kind α] [Kind.Lawful α] where
  /-- The object without the value of a secret and the readings of a clock. -/
  mask : α → α
  mask_reread (a : α) : mask (Kind.Lawful.reread a) = Kind.Lawful.reread (mask a)

instance : Kind.Masked Secret where
  mask v := { v with value := "" }
  mask_reread _ := rfl

instance : Kind.Masked Photon where
  mask p := { p with createdAt := 0 }
  mask_reread _ := rfl

instance : Kind.Masked Deployment where
  mask d := { d with createdAt := 0, updatedAt := 0 }
  mask_reread _ := rfl

instance : Kind.Masked Pod where
  mask p := p
  mask_reread _ := rfl

instance : Kind.Masked Event where
  mask e := e
  mask_reread _ := rfl

instance : Kind.Masked Quota where
  mask q := q
  mask_reread _ := rfl

/-- Photons that are the same behind the mask differ at most in when they were made. -/
theorem Photon.exists_of_mask_eq {p p' : Photon} (h : Kind.Masked.mask p = Kind.Masked.mask p') :
    ∃ created, p' = { p with createdAt := created } := by
  have hfields : ({ p with createdAt := 0 } : Photon) = { p' with createdAt := 0 } := h
  obtain ⟨hid, hspec, -⟩ := Photon.mk.inj hfields
  refine ⟨p'.createdAt, ?_⟩
  rw [hid, hspec]

/-- Deployments that are the same behind the mask differ at most in when they were made and last
changed. -/
theorem Deployment.exists_of_mask_eq {d d' : Deployment}
    (h : Kind.Masked.mask d = Kind.Masked.mask d') :
    ∃ created updated, d' = { d with createdAt := created, updatedAt := updated } := by
  have hfields : ({ d with createdAt := 0, updatedAt := 0 } : Deployment) =
      { d' with createdAt := 0, updatedAt := 0 } := h
  obtain ⟨hid, hspec, hsystem, hstatus, -⟩ := Deployment.mk.inj hfields
  refine ⟨d'.createdAt, d'.updatedAt, ?_⟩
  rw [hid, hspec, hsystem, hstatus]

namespace Kind

variable {α : Type} [Kind α] [Lawful α] [Masked α]

/-- Objects that can be stored and are the same behind the mask. -/
structure Alike (a a' : α) : Prop where
  mask_eq : Masked.mask a = Masked.mask a'
  left : Storable a
  right : Storable a'

/-- Rereading keeps objects alike. -/
theorem Alike.reread {a a' : α} (h : Alike a a') : Alike (Lawful.reread a) (Lawful.reread a') where
  mask_eq := by rw [Masked.mask_reread, Masked.mask_reread, h.mask_eq]
  left := h.left.reread
  right := h.right.reread

/-- What is read from one value is alike. -/
theorem rel_decode?_self (v : ByteArray) : Option.Rel Alike (decode? v : Option α) (decode? v) := by
  cases h : (decode? v : Option α) with
  | none => exact .none
  | some a => exact .some ⟨rfl, storable_of_decode? h, storable_of_decode? h⟩

/-- What is read from the written forms of objects that are alike is alike. -/
theorem Alike.rel_decode? {a a' : α} (h : Alike a a') :
    Option.Rel Alike (decode? (encode a) : Option α) (decode? (encode a')) := by
  rw [h.left.decode?_encode, h.right.decode?_encode]
  exact .some h.reread

theorem map_mask_eq {as as' : List α} (h : List.Forall₂ Alike as as') :
    as.map Masked.mask = as'.map Masked.mask := by
  induction h with
  | nil => rfl
  | cons hfirst hrest ih => rw [List.map_cons, List.map_cons, hfirst.mask_eq, ih]

end Kind

/-! ### Values that are alike -/

/-- Two values of a key are the same, or the written forms of objects that are alike. -/
inductive AlikeAt (c : Config) (key : String) : ByteArray → ByteArray → Prop
  | same (v : ByteArray) : AlikeAt c key v v
  | photon (id : String) (p p' : Photon) (alike : Kind.Alike p p')
    (place : key = c.photons.key id) : AlikeAt c key (Kind.encode p) (Kind.encode p')
  | deployment (id : String) (d d' : Deployment) (alike : Kind.Alike d d')
    (place : key = c.deployments.key id) : AlikeAt c key (Kind.encode d) (Kind.encode d')
  | secret (name : String) (v v' : Secret) (alike : Kind.Alike v v')
    (place : key = c.secrets.key name) : AlikeAt c key (Kind.encode v) (Kind.encode v')

section Reading

variable {c : Config} {α : Type} [Kind α] [Kind.Lawful α] [Kind.Masked α]

/-- Values that are alike are read alike. -/
def Repository.ReadsAlike (c : Config) (r : Repository α) : Prop :=
  ∀ name v v', AlikeAt c (r.key name) v v' →
    Option.Rel Kind.Alike (Kind.decode? v : Option α) (Kind.decode? v')

theorem readsAlike_photons (c : Config) : c.photons.ReadsAlike c := by
  rintro id v v' (v | ⟨-, p, p', h, -⟩ | ⟨id', d, d', -, hkey⟩ | ⟨name, s, s', -, hkey⟩)
  · exact Kind.rel_decode?_self v
  · exact h.rel_decode?
  · exact absurd hkey (Workspace.photons_apart_deployments c id id')
  · exact absurd hkey.symm (Workspace.secrets_apart_photons c name id)

theorem readsAlike_deployments (c : Config) : c.deployments.ReadsAlike c := by
  rintro id v v' (v | ⟨id', p, p', -, hkey⟩ | ⟨-, d, d', h, -⟩ | ⟨name, s, s', -, hkey⟩)
  · exact Kind.rel_decode?_self v
  · exact absurd hkey.symm (Workspace.photons_apart_deployments c id' id)
  · exact h.rel_decode?
  · exact absurd hkey.symm (Workspace.secrets_apart_deployments c name id)

/-- What is alike where secrets are kept is read as secrets of the same name. -/
theorem readsAlike_secrets (c : Config) : c.secrets.ReadsAlike c := by
  rintro name v v' (v | ⟨id, p, p', -, hkey⟩ | ⟨id, d, d', -, hkey⟩ | ⟨-, s, s', h, -⟩)
  · exact Kind.rel_decode?_self v
  · exact absurd hkey (Workspace.secrets_apart_photons c name id)
  · exact absurd hkey (Workspace.secrets_apart_deployments c name id)
  · exact h.rel_decode?

/-- The API writes no other kind. -/
theorem readsAlike_of_apart {r : Repository α} (hphotons : r.Apart c.photons)
    (hdeployments : r.Apart c.deployments) (hsecrets : r.Apart c.secrets) : r.ReadsAlike c := by
  rintro name v v' (v | ⟨id, p, p', -, hkey⟩ | ⟨id, d, d', -, hkey⟩ | ⟨name', s, s', -, hkey⟩)
  · exact Kind.rel_decode?_self v
  · exact absurd hkey (hphotons name id)
  · exact absurd hkey (hdeployments name id)
  · exact absurd hkey (hsecrets name name')

theorem readsAlike_pods (c : Config) : c.pods.ReadsAlike c :=
  readsAlike_of_apart (Repository.apart_of_plural_ne rfl (by decide) (by decide) (by decide))
    (Repository.apart_of_plural_ne rfl (by decide) (by decide) (by decide))
    (Repository.apart_of_plural_ne rfl (by decide) (by decide) (by decide))

theorem readsAlike_events (c : Config) : c.events.ReadsAlike c :=
  readsAlike_of_apart (Repository.apart_of_plural_ne rfl (by decide) (by decide) (by decide))
    (Repository.apart_of_plural_ne rfl (by decide) (by decide) (by decide))
    (Repository.apart_of_plural_ne rfl (by decide) (by decide) (by decide))

theorem readsAlike_quotas (c : Config) : c.quotas.ReadsAlike c :=
  readsAlike_of_apart (Repository.apart_of_plural_ne rfl (by decide) (by decide) (by decide))
    (Repository.apart_of_plural_ne rfl (by decide) (by decide) (by decide))
    (Repository.apart_of_plural_ne rfl (by decide) (by decide) (by decide))

end Reading

/-! ### Stores -/

/-- Entries of one key and one revision, with values that are alike. -/
structure Entry.Alike (c : Config) (e e' : Entry) : Prop where
  key : e.key = e'.key
  revision : e.revision = e'.revision
  value : AlikeAt c e.key e.value e'.value

theorem Entry.Alike.refl (c : Config) (e : Entry) : Entry.Alike c e e :=
  ⟨rfl, rfl, .same e.value⟩

namespace KeyStore

variable {c : Config} {s s' : KeyStore}

/-- Stores with as many changes and entries that are alike. -/
structure Alike (c : Config) (s s' : KeyStore) : Prop where
  revision : s.revision = s'.revision
  entries : List.Forall₂ (Entry.Alike c) s.entries s'.entries

theorem Alike.refl (c : Config) (s : KeyStore) : Alike c s s :=
  ⟨rfl, List.forall₂_same.2 fun e _ => .refl c e⟩

/-- Entries that are alike are still alike when both are cut down by their keys. -/
theorem forall₂_filter (P : String → Bool) {es es' : List Entry}
    (h : List.Forall₂ (Entry.Alike c) es es') :
    List.Forall₂ (fun e e' => Entry.Alike c e e' ∧ P e.key = true)
      (es.filter fun e => P e.key) (es'.filter fun e => P e.key) := by
  induction h with
  | nil => exact .nil
  | @cons e e' es es' hfirst hrest ih =>
    rw [List.filter_cons, List.filter_cons, ← hfirst.key]
    split
    · exact .cons ⟨hfirst, ‹_›⟩ ih
    · exact ih

theorem Alike.get? (h : Alike c s s') (key : String) :
    Option.Rel (fun e e' => Entry.Alike c e e' ∧ e.key = key) (s.get? key) (s'.get? key) := by
  have hfilter := forall₂_filter (· == key) h.entries
  unfold KeyStore.get?
  rw [← List.head?_filter, ← List.head?_filter]
  revert hfilter
  generalize s.entries.filter _ = es, s'.entries.filter _ = es'
  rintro (_ | ⟨hfirst, -⟩)
  · exact .none
  · exact .some ⟨hfirst.1, beq_iff_eq.1 hfirst.2⟩

/-- Alike stores give the same revisions. -/
theorem Alike.revisionOf (h : Alike c s s') (key : String) :
    s.revisionOf key = s'.revisionOf key := by
  unfold KeyStore.revisionOf
  have hget := h.get? key
  revert hget
  generalize s.get? key = e, s'.get? key = e'
  rintro (⟨hentry, -⟩ | _)
  · exact hentry.revision
  · rfl

/-- Alike stores list the same keys in the same order. -/
theorem Alike.list (h : Alike c s s') (start : String) :
    List.Forall₂ (fun e e' => Entry.Alike c e e' ∧ isUnder start e.key = true)
      (s.list start) (s'.list start) := by
  rw [list_eq_filter, list_eq_filter]
  exact forall₂_filter (isUnder start) h.entries

theorem Alike.nextRevision (h : Alike c s s') : s.nextRevision = s'.nextRevision := by
  unfold KeyStore.nextRevision
  rw [h.revision]

theorem forall₂_insert {e e' : Entry} (he : Entry.Alike c e e') {es es' : List Entry}
    (h : List.Forall₂ (Entry.Alike c) es es') :
    List.Forall₂ (Entry.Alike c) (Entry.insert e es) (Entry.insert e' es') := by
  induction h with
  | nil => exact .cons he .nil
  | @cons f f' es es' hfirst hrest ih =>
    unfold Entry.insert
    rw [← he.key, ← hfirst.key]
    split
    · exact .cons he (.cons hfirst hrest)
    · split
      · exact .cons he hrest
      · exact .cons hfirst ih

/-- Alike stores stay alike when what is alike is written to both. -/
theorem Alike.write (h : Alike c s s') {key : String} {v v' : ByteArray}
    (hv : AlikeAt c key v v') : Alike c (s.write key v) (s'.write key v') := by
  have he : Entry.Alike c ⟨key, v, s.nextRevision⟩ ⟨key, v', s'.nextRevision⟩ :=
    ⟨rfl, h.nextRevision, hv⟩
  exact ⟨h.nextRevision, forall₂_insert he h.entries⟩

/-- A deletion finds the same in alike stores, and leaves them alike. -/
theorem Alike.delete (h : Alike c s s') (key : String) :
    (s.delete key).1 = (s'.delete key).1 ∧ Alike c (s.delete key).2 (s'.delete key).2 := by
  have hsome : (s.get? key).isSome = (s'.get? key).isSome := by
    have hget := h.get? key
    revert hget
    generalize s.get? key = e, s'.get? key = e'
    rintro (_ | _)
    · rfl
    · rfl
  unfold KeyStore.delete
  rw [hsome]
  split
  · exact ⟨rfl, h.nextRevision, (forall₂_filter (· != key) h.entries).imp fun _ _ he => he.1⟩
  · exact ⟨rfl, h⟩

/-- A swap meets the same verdict in alike stores, and leaves them alike. -/
theorem Alike.compareAndSwap (h : Alike c s s') {key : String} {v v' : ByteArray}
    (hv : AlikeAt c key v v') (expected : UInt64) :
    (s.compareAndSwap key expected v).1 = (s'.compareAndSwap key expected v').1 ∧
      Alike c (s.compareAndSwap key expected v).2 (s'.compareAndSwap key expected v').2 := by
  unfold KeyStore.compareAndSwap
  rw [h.revisionOf key, h.nextRevision]
  split
  · exact ⟨rfl, h.write hv⟩
  · exact ⟨rfl, h⟩

end KeyStore

/-! ### Calls -/

namespace Call

variable {c : Config}

/-- Two calls on keys that are the same, with values that are alike. -/
inductive Alike (c : Config) : Call → Call → Prop
  | get (key : String) : Alike c (.get key) (.get key)
  | list (start : String) : Alike c (.list start) (.list start)
  | swap (key : String) (expected : UInt64) {v v' : ByteArray} (value : AlikeAt c key v v') :
    Alike c (.swap key expected v) (.swap key expected v')
  | delete (key : String) : Alike c (.delete key) (.delete key)

/-- Answers that are alike. -/
def AnswersAlike (c : Config) : (x x' : Call) → x.Answer → x'.Answer → Prop
  | .get key, .get _, e, e' => Option.Rel (fun e e' => Entry.Alike c e e' ∧ e.key = key) e e'
  | .list start, .list _, es, es' =>
    List.Forall₂ (fun e e' => Entry.Alike c e e' ∧ KeyStore.isUnder start e.key = true) es es'
  | .swap .., .swap .., result, result' => result = result'
  | .delete _, .delete _, existed, existed' => existed = existed'
  | _, _, _, _ => False

/-- On stores that are alike, calls that are alike have answers that are alike and leave stores that
are alike. -/
theorem Alike.answer {x x' : Call} (h : Alike c x x') {b b' : Backend}
    (hb : b.keys.Alike c b'.keys) :
    AnswersAlike c x x' (x.answer b).1 (x'.answer b').1 ∧
      (x.answer b).2.keys.Alike c (x'.answer b').2.keys := by
  cases h with
  | get key => exact ⟨hb.get? key, hb⟩
  | list start => exact ⟨hb.list start, hb⟩
  | swap key expected value => exact hb.compareAndSwap value expected
  | delete key => exact hb.delete key

end Call

end Workplane
