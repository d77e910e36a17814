import Workplane.Photon
import Workplane.Proofs.Json.Depth
import Workplane.Proofs.Objects.Records

/-!
# Photons read back

A photon is read from its document exactly when its schema is not nested too deeply for the room
that is left (`Photon.reader_toJson_iff`).
-/

namespace Workplane

open Reader

namespace Photon.Spec

/-- The specification is read with the given number of levels of nesting left for its members. -/
structure IsReadAt (room : Nat) (s : Photon.Spec) : Prop where
  schema : ∀ j, s.openapiSchema = some j → any room j = some j ∧ j ≠ .null
  labels : s.labels.Pairwise (·.1 < ·.1)

/-- Every number of the schema is in range. -/
def InRange (s : Photon.Spec) : Prop :=
  ∀ j, s.openapiSchema = some j → j.InRange

/-- The specification that a stored specification is read as. -/
def reread (s : Photon.Spec) : Photon.Spec :=
  { s with openapiSchema := s.openapiSchema.map Json.reread }

/-! ### Writing and reading -/

theorem map_text {labels : List (String × String)} (h : labels.Pairwise (·.1 < ·.1)) (room : Nat) :
    map text (room + 1) (.object (labels.map fun l => (l.1, .string l.2))) = some labels := by
  have hmapM (ls : List (String × String)) :
      (ls.map fun l => (l.1, Json.string l.2)).mapM
        (fun m : String × Json => (text room m.2).map fun v => (m.1, v)) = some ls := by
    induction ls with
    | nil => rfl
    | cons l ls ih =>
      rw [List.map_cons, List.mapM_cons, ih]
      rfl
  show ((labels.map fun l => (l.1, Json.string l.2)).mapM
    (fun m : String × Json => (text room m.2).map fun v => (m.1, v))).bind _ = _
  rw [hmapM, Option.bind_some]
  show some (Sorted.ofList labels) = _
  rw [Sorted.ofList_of_pairwise h]

/-- A specification is read from a record that has its members. -/
theorem ofMembers_eq {s : Photon.Spec} {m : Members} (room : Nat) (hroom : m.room = room + 1)
    (hfound : ∀ name ∈ memberNames, m.found.lookup name = s.members.lookup name)
    (h : s.IsReadAt m.room) : ofMembers m = some s := by
  obtain ⟨name, model, image, exposedPaths, requirementDependency, entrypoint, openapiSchema,
    labels⟩ := s
  have hname : m.required "name" text = some name := by
    unfold Members.required
    rw [hfound _ (by decide)]
    rfl
  have hmodel : m.withDefault "model" "" text = some model := by
    unfold Members.withDefault
    rw [hfound _ (by decide)]
    rfl
  have himage : m.required "image" text = some image := by
    unfold Members.required
    rw [hfound _ (by decide)]
    rfl
  have hpaths : m.withDefault "exposed_paths" [] (list text) = some exposedPaths := by
    unfold Members.withDefault
    rw [hfound _ (by decide), hroom]
    exact list_map (fun s => rfl) exposedPaths
  have hdependency :
      m.withDefault "requirement_dependency" [] (list text) = some requirementDependency := by
    unfold Members.withDefault
    rw [hfound _ (by decide), hroom]
    exact list_map (fun s => rfl) requirementDependency
  -- An absent member is not written, so the place of those after it depends on which ones are
  -- there.
  have hentrypoint : m.omittable "entrypoint" text = some entrypoint := by
    unfold Members.omittable Members.withDefault
    rw [hfound _ (by decide)]
    cases entrypoint <;> cases openapiSchema <;> rfl
  have hschema : m.omittable "openapi_schema" any = some openapiSchema := by
    unfold Members.omittable Members.withDefault
    rw [hfound _ (by decide)]
    cases hj : openapiSchema with
    | none => cases entrypoint <;> rfl
    | some j =>
      obtain ⟨hany, hnull⟩ := h.schema j hj
      have hread : nullable any m.room j = some (some j) := by
        unfold nullable
        split
        · contradiction
        · rw [hany]
          rfl
      cases entrypoint <;> exact hread
  have hlabels : m.withDefault "labels" [] (map text) = some labels := by
    have hread := map_text h.labels room
    rw [← hroom] at hread
    unfold Members.withDefault
    rw [hfound _ (by decide)]
    cases entrypoint <;> cases openapiSchema <;> exact hread
  unfold ofMembers
  simp only [Option.bind_eq_bind, Option.bind_some, hname, hmodel, himage, hpaths, hdependency,
    hentrypoint, hschema, hlabels]
  rfl

/-- What a specification is read as is read at that depth again. -/
theorem isReadAt_of_ofMembers {m : Members} {s : Photon.Spec} (h : ofMembers m = some s) :
    s.IsReadAt m.room ∧ (m.InRange → s.InRange) := by
  unfold ofMembers at h
  obtain ⟨name, -, h⟩ := Option.bind_eq_some_iff.1 h
  obtain ⟨model, -, h⟩ := Option.bind_eq_some_iff.1 h
  obtain ⟨image, -, h⟩ := Option.bind_eq_some_iff.1 h
  obtain ⟨exposedPaths, -, h⟩ := Option.bind_eq_some_iff.1 h
  obtain ⟨requirementDependency, -, h⟩ := Option.bind_eq_some_iff.1 h
  obtain ⟨entrypoint, -, h⟩ := Option.bind_eq_some_iff.1 h
  obtain ⟨openapiSchema, hschema, h⟩ := Option.bind_eq_some_iff.1 h
  obtain ⟨labels, hlabels, h⟩ := Option.bind_eq_some_iff.1 h
  obtain rfl := Option.some.inj h
  have hany : ∀ k, openapiSchema = some k →
      any m.room k = some k ∧ k ≠ .null ∧ (m.InRange → k.InRange) := by
    rintro k rfl
    obtain h | ⟨j, hj, hread⟩ := Members.of_withDefault hschema
    · exact nomatch h
    · unfold nullable at hread
      split at hread
      · exact nomatch hread
      · rename_i hnull
        obtain ⟨k', hk, hkk⟩ := Option.map_eq_some_iff.1 hread
        obtain rfl := Option.some.inj hkk
        obtain ⟨hagain, hrange⟩ := any_of_any hk
        exact ⟨hagain, fun h => hnull (eq_null_of_any (h ▸ hk)), fun hm => hrange (hm _ hj)⟩
  refine ⟨⟨fun k hk => ⟨(hany k hk).1, (hany k hk).2.1⟩, ?_⟩, fun hm k hk => (hany k hk).2.2 hm⟩
  obtain rfl | ⟨j, -, hread⟩ := Members.of_withDefault hlabels
  · exact .nil
  · unfold map at hread
    split at hread
    · obtain ⟨ms, -, hms⟩ := Option.bind_eq_some_iff.1 hread
      obtain rfl := Option.some.inj hms
      exact Sorted.pairwise_ofList ms
    · exact nomatch hread

/-- What is read at some depth is read at every depth that is enough for its schema. -/
theorem IsReadAt.iff_depth_le {room room' : Nat} {s : Photon.Spec} (h : s.IsReadAt room) :
    s.IsReadAt room' ↔ ∀ j, s.openapiSchema = some j → j.depth ≤ room' := by
  constructor
  · exact fun h' j hj => (any_of_depth_le (h'.schema j hj).1).1
  · refine fun hdepth => ⟨fun j hj => ?_, h.labels⟩
    obtain ⟨hread, hnull⟩ := h.schema j hj
    exact ⟨(any_of_depth_le hread).2 room' (hdepth j hj), hnull⟩

theorem isReadAt_of_reader {room : Nat} {j : Json} {s : Photon.Spec}
    (h : Photon.Spec.reader (room + 1) j = some s) :
    s.IsReadAt room ∧ (j.InRange → s.InRange) := by
  obtain ⟨m, hm, h⟩ := Option.bind_eq_some_iff.1 h
  obtain ⟨hread, hrange⟩ := isReadAt_of_ofMembers h
  rw [room_members hm] at hread
  exact ⟨hread, fun hj => hrange (Reader.inRange_members hj hm)⟩

/-- A specification that was read can be read from its stored form. -/
theorem IsReadAt.reread {room : Nat} {s : Photon.Spec} (hs : s.InRange) (h : s.IsReadAt room) :
    s.reread.IsReadAt room := by
  refine ⟨fun k hk => ?_, h.labels⟩
  obtain ⟨j, hj, rfl⟩ := Option.map_eq_some_iff.1 hk
  obtain ⟨hread, hnull⟩ := h.schema j hj
  exact ⟨any_reread (hs j hj) hread, reread_ne_null (hs j hj) hnull hread⟩

end Photon.Spec

namespace Photon

theorem members_filter (s : Photon.Spec) (id createdAt : Json) :
    (("id", id) :: (s.members ++ [("created_at_ms", createdAt)])).filter
      (fun m => !(m.1 == "id" || m.1 == "created_at_ms")) = s.members := by
  obtain ⟨name, model, image, exposedPaths, requirementDependency, entrypoint, openapiSchema,
    labels⟩ := s
  cases entrypoint <;> cases openapiSchema <;> rfl

theorem any_members {s : Photon.Spec} {room : Nat} (h : s.IsReadAt (room + 1)) :
    ∀ m ∈ s.members, any (room + 1) m.2 = some m.2 := by
  have hstrings (ss : List String) : any (room + 1) (.strings ss) = some (.strings ss) := by
    show (anyItems room (ss.map .string)).map _ = _
    rw [anyItems_of_forall fun j hj => ?_]
    · rfl
    · obtain ⟨s, -, rfl⟩ := List.mem_map.1 hj
      cases room <;> rfl
  have hlabels : any (room + 1) (.object (s.labels.map fun l => (l.1, .string l.2))) =
      some (.object (s.labels.map fun l => (l.1, .string l.2))) := by
    have hsorted : (s.labels.map fun l => (l.1, Json.string l.2)).Pairwise (·.1 < ·.1) :=
      List.pairwise_map.2 h.labels
    show (anyMembers room (s.labels.map fun l => (l.1, Json.string l.2))).map _ = _
    rw [anyMembers_of_forall fun m hm => ?_, Option.map_some, Sorted.ofList_of_pairwise hsorted]
    obtain ⟨l, -, rfl⟩ := List.mem_map.1 hm
    cases room <;> rfl
  intro m hm
  unfold Photon.Spec.members at hm
  simp only [List.mem_append, List.mem_cons, List.not_mem_nil, or_false] at hm
  rcases hm with (((rfl | rfl | rfl | rfl | rfl) | hm) | hm) | rfl
  · rfl
  · rfl
  · rfl
  · exact hstrings _
  · exact hstrings _
  · cases he : s.entrypoint with
    | none => rw [he] at hm; exact nomatch hm
    | some e =>
      rw [he] at hm
      obtain rfl := List.mem_singleton.1 hm
      rfl
  · cases hj : s.openapiSchema with
    | none => rw [hj] at hm; exact nomatch hm
    | some j =>
      rw [hj] at hm
      obtain rfl := List.mem_singleton.1 hm
      exact (h.schema j hj).1
  · exact hlabels

/-- The members of a photon as a document. -/
def documentMembers (p : Photon) : List (String × Json) :=
  ("id", .string p.id) :: (p.spec.members ++ [("created_at_ms", .int p.createdAt.toNat)])

theorem toJson_eq (p : Photon) : p.toJson = .object p.documentMembers := rfl

theorem lookup_documentMembers (p : Photon) {name : String} (h : name ∈ Spec.memberNames) :
    p.documentMembers.lookup name = p.spec.members.lookup name := by
  obtain ⟨id, ⟨pname, model, image, exposedPaths, requirementDependency, entrypoint, openapiSchema,
    labels⟩, createdAt⟩ := p
  simp only [Spec.memberNames, List.mem_cons, List.not_mem_nil, or_false] at h
  rcases h with rfl | rfl | rfl | rfl | rfl | rfl | rfl | rfl <;> cases entrypoint <;>
    cases openapiSchema <;> rfl

theorem members_documentMembers (p : Photon) (room : Nat) :
    Reader.members (["id", "created_at_ms"] ++ Spec.memberNames) (room + 1) p.toJson =
      some ⟨false, room, p.documentMembers⟩ := by
  rw [toJson_eq]
  obtain ⟨id, ⟨pname, model, image, exposedPaths, requirementDependency, entrypoint, openapiSchema,
    labels⟩, createdAt⟩ := p
  refine members_object room ?_ ?_ <;> cases entrypoint <;> cases openapiSchema <;>
    simp [documentMembers, Spec.members, Json.optional, Spec.memberNames]

theorem reader_toJson {p : Photon} {room : Nat} (h : p.spec.IsReadAt (room + 1)) :
    Photon.reader (room + 2) p.toJson = some p := by
  have hothers := anyMembers_of_forall (any_members h)
  rw [← members_filter p.spec (.string p.id) (.int p.createdAt.toNat)] at hothers
  have hmembers := p.members_documentMembers (room + 1)
  have hspec := Spec.ofMembers_eq room (m := ⟨false, room + 1, p.documentMembers⟩) rfl
    (fun name hname => p.lookup_documentMembers hname) h
  have hcreated : (⟨false, room + 1, p.documentMembers⟩ : Members).withDefault "created_at_ms" 0
      uint64 = some p.createdAt := by
    have hread := uint64_toNat p.createdAt (room + 1)
    obtain ⟨id, ⟨pname, model, image, exposedPaths, requirementDependency, entrypoint,
      openapiSchema, labels⟩, createdAt⟩ := p
    cases entrypoint <;> cases openapiSchema <;> exact hread
  show ((anyMembers (room + 1) (p.documentMembers.filter _)).bind _) = _
  unfold documentMembers
  rw [hothers, Option.bind_some]
  show ((Reader.members _ (room + 2) p.toJson).bind _) = _
  rw [hmembers, Option.bind_some]
  show (Spec.ofMembers _).bind _ = _
  rw [hspec, Option.bind_some, hcreated]
  rfl

theorem isReadAt_of_reader {room : Nat} {j : Json} {p : Photon}
    (h : Photon.reader (room + 1) j = some p) :
    p.spec.IsReadAt room ∧ (j.InRange → p.spec.InRange) := by
  cases j with
  | object ms =>
    obtain ⟨_, -, h⟩ := Option.bind_eq_some_iff.1 h
    obtain ⟨m, hm, h⟩ := Option.bind_eq_some_iff.1 h
    obtain ⟨id, -, h⟩ := Option.bind_eq_some_iff.1 h
    obtain ⟨spec, hspec, h⟩ := Option.bind_eq_some_iff.1 h
    obtain ⟨createdAt, -, h⟩ := Option.bind_eq_some_iff.1 h
    obtain rfl := Option.some.inj h
    obtain ⟨hread, hrange⟩ := Spec.isReadAt_of_ofMembers hspec
    rw [room_members hm] at hread
    exact ⟨hread, fun hj => hrange (Reader.inRange_members hj hm)⟩
  | null | bool _ | number _ | string _ | array _ | unreadable => exact nomatch h

/-- A document that is read at all leaves room for the schema. -/
theorem depth_le_of_reader {p q : Photon} {room : Nat}
    (h : Photon.reader (room + 1) p.toJson = some q) {j : Json}
    (hj : p.spec.openapiSchema = some j) : j.depth ≤ room := by
  obtain ⟨ks, hothers, -⟩ := Option.bind_eq_some_iff.1 h
  rw [members_filter] at hothers
  have hmem : ("openapi_schema", j) ∈ p.spec.members := by
    rw [Photon.Spec.members, hj]
    simp [Json.optional]
  exact (Json.depth_le_of_mem hmem).trans (anyMembers_of_depth_le hothers).1

/-- A photon is read from its document exactly when its schema is not nested too deeply. -/
theorem reader_toJson_iff {p : Photon} {room : Nat} :
    Photon.reader (room + 2) p.toJson = some p ↔ p.spec.IsReadAt (room + 1) :=
  ⟨fun h => (isReadAt_of_reader h).1, reader_toJson⟩

/-- The photon that a stored photon is read as. -/
def reread (p : Photon) : Photon :=
  { p with spec := p.spec.reread }

theorem toJson_reread (p : Photon) : p.toJson.reread = p.reread.toJson := by
  obtain ⟨id, ⟨pname, model, image, exposedPaths, requirementDependency, entrypoint, openapiSchema,
    labels⟩, createdAt⟩ := p
  have hcreated := Json.reread_natCast createdAt.toNat_lt
  have hstrings (ss : List String) : (Json.strings ss).reread = .strings ss := by
    show Json.array (Json.rereadItems _) = _
    rw [Json.rereadItems_eq_map, List.map_map]
    rfl
  have hlabels : Json.rereadMembers (labels.map fun l => (l.1, .string l.2)) =
      labels.map fun l => (l.1, .string l.2) := by
    rw [Json.rereadMembers_eq_map, List.map_map]
    rfl
  unfold reread Spec.reread toJson Spec.members
  cases entrypoint <;> cases openapiSchema <;>
    simp [Json.reread, Json.rereadMembers, Json.optional, hstrings, hlabels, hcreated]

instance : Kind.Lawful Photon where
  reread := reread
  InRange p := p.spec.InRange
  toJson_reread {p} _ := p.toJson_reread
  inRange_reread {p} h := by
    intro k hk
    obtain ⟨j, hj, rfl⟩ := Option.map_eq_some_iff.1 hk
    exact Json.inRange_reread (h j hj)
  objectName_reread _ := rfl
  inRange_of_reader {room j p} hj h := by
    cases room with
    | zero => exact nomatch h
    | succ room => exact (isReadAt_of_reader h).2 hj
  reader_toJson {room j p} hroom _ h := by
    obtain ⟨room, rfl⟩ : ∃ r, room = r + 2 := ⟨room - 2, by omega⟩
    exact reader_toJson (isReadAt_of_reader h).1
  reader_reread {room p} hroom hp h := by
    obtain ⟨room, rfl⟩ : ∃ r, room = r + 2 := ⟨room - 2, by omega⟩
    exact reader_toJson ((reader_toJson_iff.1 h).reread hp)
  eq_of_reader {room room' p q} hroom hp hq := by
    obtain ⟨room', rfl⟩ : ∃ r, room' = r + 2 := ⟨room' - 2, by omega⟩
    cases room with
    | zero => exact nomatch hp
    | succ room =>
      have hread := (isReadAt_of_reader hp).1
      have hread' := hread.iff_depth_le.2 fun j hj => depth_le_of_reader hq hj
      exact Option.some.inj (hq.symm.trans (reader_toJson hread'))

end Photon

end Workplane
