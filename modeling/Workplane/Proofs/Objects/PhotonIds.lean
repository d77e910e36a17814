import Workplane.Proofs.Json.Distinct
import Workplane.Proofs.Objects.Photons

/-!
# Identifiers of photons

The identifier of a specification holds its name in lower case and four bytes of the digest of its
written form.  The written form tells the specification (`Photon.Spec.Decodes.eq_of_bytes_eq`), so
two specifications share an identifier only if their names agree up to case and the digests of two
different texts agree in their first four bytes (`Photon.idOf_eq_iff`).
-/

namespace Workplane

/-! ### Digits of bytes -/

namespace Hex

theorem take_flatMap_ofByte (n : Nat) (bs : List UInt8) :
    (bs.flatMap ofByte).take (2 * n) = (bs.take n).flatMap ofByte := by
  induction n generalizing bs with
  | zero => rfl
  | succ n ih =>
    cases bs with
    | nil => rfl
    | cons b bs =>
      rw [List.take_succ_cons, List.flatMap_cons, List.flatMap_cons, ← ih bs]
      rfl

theorem length_flatMap_ofByte (bs : List UInt8) : (bs.flatMap ofByte).length = 2 * bs.length := by
  induction bs with
  | nil => rfl
  | cons b bs ih =>
    rw [List.flatMap_cons, List.length_append, ih, List.length_cons]
    show 2 + _ = _
    omega

theorem flatMap_ofByte_injective {bs cs : List UInt8} (h : bs.flatMap ofByte = cs.flatMap ofByte) :
    bs = cs := by
  have hread := toBytes?_ofByte bs
  rw [h, toBytes?_ofByte] at hread
  exact (Option.some.inj hread).symm

end Hex

theorem Sha256.length_digest (message : List UInt8) : (Sha256.digest message).length = 32 := by
  simp [Sha256.digest, Sha256.State.words, Sha256.bytesOfWord]

namespace Photon

open Reader

variable {s s' : Spec} {room room' : Nat}

/-! ### The written form -/

namespace Spec

theorem IsReadAt.mono (h : s.IsReadAt room) (hle : room ≤ room') : s.IsReadAt room' :=
  h.iff_depth_le.2 fun j hj => (h.iff_depth_le.1 h j hj).trans hle

theorem eq_of_toJson_eq (hs : s.IsReadAt room) (hs' : s'.IsReadAt room')
    (h : s.toJson = s'.toJson) : s = s' := by
  -- With room for both, each of them is read from its members.
  have hread {t : Spec} (ht : t.IsReadAt (room + room' + 1)) :
      ofMembers ⟨false, room + room' + 1, t.members⟩ = some t :=
    ofMembers_eq (room + room') rfl (fun _ _ => rfl) ht
  have hsread := hread (hs.mono (by omega))
  rw [show s.members = s'.members from Json.object.inj h, hread (hs'.mono (by omega))] at hsread
  exact (Option.some.inj hsread).symm

theorem isValue_toJson (hs : s.IsReadAt room) (hrange : s.InRange) : s.toJson.IsValue := by
  have hstrings (ss : List String) : (Json.strings ss).IsValue := by
    refine .array fun j hj => ?_
    obtain ⟨s, -, rfl⟩ := List.mem_map.1 hj
    exact .string s
  refine .object fun m hm => ?_
  unfold members at hm
  simp only [List.mem_append, List.mem_cons, List.not_mem_nil, or_false] at hm
  rcases hm with (((rfl | rfl | rfl | rfl | rfl) | hm) | hm) | rfl
  · exact .string _
  · exact .string _
  · exact .string _
  · exact hstrings _
  · exact hstrings _
  · cases he : s.entrypoint with
    | none => rw [he] at hm; exact nomatch hm
    | some e =>
      rw [he] at hm
      obtain rfl := List.mem_singleton.1 hm
      exact .string e
  · cases hj : s.openapiSchema with
    | none => rw [hj] at hm; exact nomatch hm
    | some j =>
      rw [hj] at hm
      obtain rfl := List.mem_singleton.1 hm
      exact isValue_of_any (hs.schema j hj).1 (hrange j hj)
  · refine .object fun m hm => ?_
    obtain ⟨l, -, rfl⟩ := List.mem_map.1 hm
    exact .string l.2

/-- The specification was read from a text, by itself or with a photon. -/
inductive Decodes : Spec → Prop
  | spec {text : ByteArray} {s : Spec} (read : (Json.ofBytes? text).bind reader.run = some s) :
    Decodes s
  | photon {text : ByteArray} {p : Photon} (read : Kind.decode? text = some p) : Decodes p.spec

theorem Decodes.isReadAt (h : s.Decodes) : (∃ room, s.IsReadAt room) ∧ s.InRange := by
  cases h with
  | spec read =>
    obtain ⟨j, hj, hspec⟩ := Option.bind_eq_some_iff.1 read
    obtain ⟨hread, hrange⟩ := isReadAt_of_reader hspec
    exact ⟨⟨_, hread⟩, hrange (Json.inRange_of_ofBytes? hj)⟩
  | photon read =>
    obtain ⟨j, hj, hphoton⟩ := Option.bind_eq_some_iff.1 read
    obtain ⟨hread, hrange⟩ := Photon.isReadAt_of_reader hphoton
    exact ⟨⟨_, hread⟩, hrange (Json.inRange_of_ofBytes? hj)⟩

/-- What is digested tells the specification. -/
theorem Decodes.eq_of_bytes_eq (hs : s.Decodes) (hs' : s'.Decodes)
    (h : s.toJson.bytes = s'.toJson.bytes) : s = s' := by
  obtain ⟨⟨room, hread⟩, hrange⟩ := hs.isReadAt
  obtain ⟨⟨room', hread'⟩, hrange'⟩ := hs'.isReadAt
  exact eq_of_toJson_eq hread hread'
    ((isValue_toJson hread hrange).eq_of_bytes_eq (isValue_toJson hread' hrange') h)

end Spec

/-! ### Identifiers -/

/-- The part of a digest that an identifier shows. -/
def fingerprint (s : Spec) : List UInt8 :=
  (Sha256.digest s.toJson.bytes.toList).take 4

theorem toList_idOf (s : Spec) :
    (idOf s).toList =
      (s.name.map Char.toLower).toList ++ '-' :: (fingerprint s).flatMap Hex.ofByte := by
  have htake := Hex.take_flatMap_ofByte 4 (Sha256.digest s.toJson.bytes.toList)
  unfold idOf fingerprint Hex.ofBytes
  rw [← htake]
  simp [Name.deploymentId, digestDigits]

/-- Identifiers tell the names up to case and the first bytes of the digests. -/
theorem idOf_eq_iff : idOf s = idOf s' ↔
    s.name.map Char.toLower = s'.name.map Char.toLower ∧ fingerprint s = fingerprint s' := by
  -- The dash and the digits have a fixed length, so they are cut off first.
  have hlength (s : Spec) : ((fingerprint s).flatMap Hex.ofByte).length = 8 := by
    rw [Hex.length_flatMap_ofByte, fingerprint, List.length_take, Sha256.length_digest]
    rfl
  rw [← String.toList_inj, toList_idOf, toList_idOf]
  constructor
  · intro h
    obtain ⟨hname, hdigits⟩ := List.append_inj' h (by
      rw [List.length_cons, List.length_cons, hlength, hlength])
    exact ⟨String.toList_inj.1 hname, Hex.flatMap_ofByte_injective (List.cons.inj hdigits).2⟩
  · rintro ⟨hname, hdigits⟩
    rw [hname, hdigits]

end Photon

end Workplane
