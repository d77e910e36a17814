import Workplane.Proofs.Objects.Deployments
import Workplane.Proofs.Objects.Photons
import Workplane.Proofs.Time.Moments
import Workplane.Storage.Snapshot

/-!
# Snapshots read back

In a snapshot every object stands two levels deeper than in its stored form.  A snapshot is read
back exactly if all its objects are read at that depth (`Kind.FitsSnapshot`), and then with the
objects that stored objects are read as.
-/

namespace Workplane

variable {α : Type} [Kind α]

/-- What a snapshot is read as depends on its items alone. -/
theorem Snapshot.reader_toJson {s : Snapshot α} (htaken : s.takenAt.IsMoment) (room : Nat) :
    Snapshot.reader (room + 2) s.toJson =
      ((s.items.map Kind.toJson).mapM (Kind.reader room)).map
        fun items => (⟨s.scope, s.kind, s.takenAt, items⟩ : Snapshot α) := by
  obtain ⟨scope, kind, takenAt, items⟩ := s
  rw [Snapshot.reader, Snapshot.toJson, Reader.members_object (room + 1) (by simp) (by simp)]
  generalize hm : (⟨false, room + 1, _⟩ : Reader.Members) = m
  have hscope : m.required "namespace" Reader.text = some scope := by
    rw [← hm]
    rfl
  have hkind : m.required "kind" Reader.text = some kind := by
    rw [← hm]
    rfl
  have htime : m.required "taken_at" Timestamp.reader = some takenAt := by
    have hfound : m.found.lookup "taken_at" = some takenAt.toJson := by
      rw [← hm]
      rfl
    rw [Reader.Members.required, hfound, Option.bind_eq_bind, Option.bind_some,
      Timestamp.reader_toJson htaken]
  have hitems : m.required "items" (Reader.list Kind.reader) =
      (items.map Kind.toJson).mapM (Kind.reader (α := α) room) := by
    have hfound : m.found.lookup "items" = some (.array (items.map Kind.toJson)) := by
      rw [← hm]
      rfl
    rw [Reader.Members.required, hfound, ← hm]
    rfl
  simp only [Option.bind_eq_bind, Option.bind_some, hscope, hkind, htime, hitems]
  cases (items.map Kind.toJson).mapM (Kind.reader (α := α) room) <;> rfl

variable [Kind.Lawful α]

/-- The object is read where it stands in a snapshot, under an object and an array. -/
def Kind.FitsSnapshot (a : α) : Prop :=
  ∃ a' : α, Kind.reader 125 (Kind.toJson (Kind.Lawful.reread a)) = some a'

theorem Kind.FitsSnapshot.reader_eq {a : α} (ha : Kind.Storable a) (h : Kind.FitsSnapshot a) :
    Kind.reader 125 (Kind.toJson (Kind.Lawful.reread a)) = some (Kind.Lawful.reread a) := by
  obtain ⟨a', h⟩ := h
  rw [h, Kind.Lawful.eq_of_reader (by decide) ha.reread.reader_toJson h]

namespace Snapshot

theorem toJson_reread {s : Snapshot α} (hitems : ∀ a ∈ s.items, Kind.Storable a) :
    s.toJson.reread = (⟨s.scope, s.kind, s.takenAt, s.items.map Kind.Lawful.reread⟩ :
      Snapshot α).toJson := by
  have hmap : Json.rereadItems (s.items.map Kind.toJson) =
      (s.items.map Kind.Lawful.reread).map Kind.toJson := by
    rw [Json.rereadItems_eq_map, List.map_map, List.map_map]
    exact List.map_congr_left fun a ha => Kind.Lawful.toJson_reread (hitems a ha).inRange
  show Json.object _ = Json.object _
  simp only [Json.rereadMembers, Json.reread, hmap]
  rfl

/-- The stored form of a snapshot is read as its items are. -/
theorem decode?_encode_eq {s : Snapshot α} (htaken : s.takenAt.IsMoment)
    (hitems : ∀ a ∈ s.items, Kind.Storable a) :
    decode? s.encode =
      (((s.items.map Kind.Lawful.reread).map Kind.toJson).mapM (Kind.reader 125)).map
        fun items => (⟨s.scope, s.kind, s.takenAt, items⟩ : Snapshot α) := by
  have hread := reader_toJson
    (s := ⟨s.scope, s.kind, s.takenAt, s.items.map Kind.Lawful.reread⟩) htaken 125
  rw [decode?, encode, Json.ofBytes?_bytes_eq, toJson_reread hitems, Option.bind_eq_bind,
    Option.bind_some, Reader.run, Reader.maxDepth]
  exact hread

/-- A snapshot of objects that fit is read back. -/
theorem decode?_encode {s : Snapshot α} (htaken : s.takenAt.IsMoment)
    (hitems : ∀ a ∈ s.items, Kind.Storable a) (hfits : ∀ a ∈ s.items, Kind.FitsSnapshot a) :
    decode? s.encode =
      some (⟨s.scope, s.kind, s.takenAt, s.items.map Kind.Lawful.reread⟩ : Snapshot α) := by
  have hread (as : List α) (has : ∀ a ∈ as, Kind.Storable a ∧ Kind.FitsSnapshot a) :
      ((as.map Kind.Lawful.reread).map Kind.toJson).mapM (Kind.reader 125) =
        some (as.map Kind.Lawful.reread) := by
    induction as with
    | nil => rfl
    | cons a as ih =>
      obtain ⟨ha, hfit⟩ := has a (.head as)
      rw [List.map_cons, List.map_cons, List.mapM_cons, hfit.reader_eq ha,
        ih fun a' ha' => has a' (.tail a ha')]
      rfl
  rw [decode?_encode_eq htaken hitems, hread s.items fun a ha => ⟨hitems a ha, hfits a ha⟩]
  rfl

/-- A snapshot with an object that does not fit is not read. -/
theorem decode?_encode_eq_none {s : Snapshot α} (htaken : s.takenAt.IsMoment)
    (hitems : ∀ a ∈ s.items, Kind.Storable a) {a : α} (ha : a ∈ s.items)
    (hfits : ¬Kind.FitsSnapshot a) : (decode? s.encode : Option (Snapshot α)) = none := by
  have hread (as : List α) (has : a ∈ as) :
      ((as.map Kind.Lawful.reread).map Kind.toJson).mapM (Kind.reader (α := α) 125) = none := by
    have hnone : Kind.reader (α := α) 125 (Kind.toJson (Kind.Lawful.reread a)) = none :=
      Option.eq_none_iff_forall_not_mem.2 fun a' ha' => hfits ⟨a', ha'⟩
    induction as with
    | nil => exact absurd has List.not_mem_nil
    | cons b as ih =>
      rw [List.map_cons, List.map_cons, List.mapM_cons]
      rcases List.mem_cons.1 has with rfl | has
      · rw [hnone]
        rfl
      · rw [ih has]
        cases Kind.reader (α := α) 125 (Kind.toJson (Kind.Lawful.reread b)) <;> rfl
  rw [decode?_encode_eq htaken hitems, hread s.items ha]
  rfl

end Snapshot

/-! ### What fits into a snapshot -/

/-- A stored photon fits into a snapshot exactly if its schema is not nested too deeply. -/
theorem Photon.fitsSnapshot_iff {p : Photon} (hp : Kind.Storable p) :
    Kind.FitsSnapshot p ↔ ∀ j, p.spec.openapiSchema = some j → j.depth ≤ 124 := by
  have hread : p.reread.spec.IsReadAt 126 := (isReadAt_of_reader hp.reread.reader_toJson).1
  have hdepth : (∀ j, p.reread.spec.openapiSchema = some j → j.depth ≤ 124) ↔
      ∀ j, p.spec.openapiSchema = some j → j.depth ≤ 124 := by
    constructor
    · intro h j hj
      rw [← Json.depth_reread (hp.inRange j hj)]
      exact h j.reread (congrArg (Option.map Json.reread) hj)
    · intro h k hk
      obtain ⟨j, hj, rfl⟩ := Option.map_eq_some_iff.1 hk
      rw [Json.depth_reread (hp.inRange j hj)]
      exact h j hj
  rw [← hdepth]
  constructor
  · rintro ⟨p', hp'⟩ j hj
    exact depth_le_of_reader hp' hj
  · intro h
    exact ⟨p.reread, reader_toJson (hread.iff_depth_le.2 h)⟩

theorem Deployment.fitsSnapshot (d : Deployment) : Kind.FitsSnapshot d :=
  ⟨d.reread, d.reread.reader_toJson 120⟩

theorem Secret.fitsSnapshot (v : Secret) : Kind.FitsSnapshot v :=
  ⟨v, v.reader_toJson 122⟩

end Workplane
