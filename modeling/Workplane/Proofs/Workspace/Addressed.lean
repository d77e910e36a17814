import Workplane.Proofs.Objects.Lossless
import Workplane.Proofs.Objects.PhotonIds
import Workplane.Proofs.Workspace.Admitted

/-!
# Photons are addressed by their content

Requests are handled one after another on a store that was empty at first.  A photon is written only
when it is registered, under the identifier of what was uploaded (`Workspace.Addresses`).  The write
asks for a key that is absent, so the entry of a photon stays as it is, bytes and revision, until a
request deletes it (`Workspace.Handles.kept`).
-/

namespace Workplane

namespace Http

variable {b b' : Backend} {past : List Move} {rest : Program Response}

/-- The request deletes a photon. -/
def Request.DeletesPhoton (r : Request) (id : String) : Prop :=
  r.method = .delete ∧ ∃ raw, Resource.ofTarget r.target = some (.photon raw) ∧
    Parameter.decode? raw = some id

/-- What every change that a request may ask for preserves, the request preserves. -/
theorem Request.preserves {I : KeyStore → Prop} {c : Workspace.Config} {r : Request}
    {requestId : String}
    (write : ∀ {s past resource key expected value response}, I s → s.revisionOf key = expected →
      Resource.ofTarget r.target = some resource →
      Asks c r.body past r.method resource (.swap key expected value) response →
        I (s.write key value))
    (delete : ∀ {s past resource key response}, I s →
      Resource.ofTarget r.target = some resource →
      Asks c r.body past r.method resource (.delete key) response → I (s.delete key).2)
    (h : I b.keys) (run : (Api.handle c requestId r).Alone b past b' rest) : I b'.keys := by
  induction run with
  | start => exact h
  | @move past b' q run m q' step true_move ih =>
    have hpermits := (run.holds (holds_handle_asks c requestId r)).1.permits step
    cases true_move.effect with
    | quiet _ keys _ => exact keys ▸ ih
    | wrote key expected value request _ revision keys =>
      rcases hpermits _ request with hread | ⟨-, resource, response, target, hasks⟩
      · exact hread.elim
      · exact keys ▸ write ih revision target hasks
    | removed key request _ _ keys =>
      rcases hpermits _ request with hread | ⟨-, resource, response, target, hasks⟩
      · exact hread.elim
      · exact keys ▸ delete ih target hasks

end Http

namespace Workspace

open Http Service Writer

variable {c : Config} {b b' : Backend} {past : List Move} {rest : Program Response} {id : String}
  {e : Entry}

/-! ### Registered photons -/

/-- A request may register the specification. -/
structure Registrable (spec : Photon.Spec) : Prop where
  uploaded : ∃ body, HasBody body Photon.Spec.reader spec
  named : Name.validate spec.name = .ok ()
  image : spec.image.isEmpty = false

/-- Every entry of the photons was written when a specification with its identifier was
registered. -/
def Addresses (c : Config) (s : KeyStore) : Prop :=
  ∀ id e, s.get? (c.photons.key id) = some e → ∃ spec createdAt, Registrable spec ∧
    Photon.idOf spec = id ∧ e.value = Kind.encode (Photon.ofSpec spec createdAt)

theorem Addresses.write {s : KeyStore} (h : Addresses c s) {spec : Photon.Spec}
    (hspec : Registrable spec) (createdAt : UInt64) :
    Addresses c (s.write (c.photons.key (Photon.idOf spec))
      (Kind.encode (Photon.ofSpec spec createdAt))) := by
  refine Repository.forall_write h ⟨spec, createdAt, hspec, rfl, ?_⟩
  dsimp only

theorem Addresses.of_agrees {s s' : KeyStore} (h : Addresses c s)
    (hagrees : c.photons.Agrees s s') : Addresses c s' :=
  fun id e he => h id e (hagrees id ▸ he)

theorem Addresses.delete {s : KeyStore} (h : Addresses c s) (key : String) :
    Addresses c (s.delete key).2 :=
  Repository.forall_delete h key

theorem Addresses.write_of_asks {s : KeyStore} (h : Addresses c s) {body : ByteArray}
    {method : Method} {resource : Resource} {key : String} {expected : UInt64} {value : ByteArray}
    {response : Response}
    (hasks : Asks c body past method resource (.swap key expected value) response) :
    Addresses c (s.write key value) := by
  cases hasks with
  | createPhoton spec now read named image => exact h.write ⟨⟨body, read⟩, named, image⟩ now.millis
  | putSecret secrets v => exact h.of_agrees ((secrets_apart_photons c).agrees_write _ _)
  | createDeployment | patchDeployment =>
    exact h.of_agrees ((photons_apart_deployments c).symm.agrees_write _ _)

theorem Served.addresses (h : Served c b) : Addresses c b.keys := by
  induction h with
  | empty => exact fun id e he => nomatch he
  | request served id r past rest run ih =>
    exact Request.preserves (fun h _ _ hasks => h.write_of_asks hasks)
      (fun h _ _ => h.delete _) ih run

theorem Served.valid (h : Served c b) : b.keys.Valid := by
  induction h with
  | empty => exact KeyStore.valid_empty
  | request served id r past rest run ih => exact run.valid_keys ih

/-! ### Photons do not change -/

section Kept

variable {s : KeyStore} {body : ByteArray} {method : Method} {resource : Resource} {key : String}
  {expected : UInt64} {value : ByteArray} {response : Response}

/-- No write goes over the entry of a photon, since a registration asks for an absent key. -/
theorem get?_write_of_asks (hvalid : s.Valid) (he : s.get? (c.photons.key id) = some e)
    (revision : s.revisionOf key = expected)
    (hasks : Asks c body past method resource (.swap key expected value) response) :
    (s.write key value).get? (c.photons.key id) = some e := by
  rw [← he]
  cases hasks with
  | createPhoton spec now =>
    refine KeyStore.get?_write_of_ne (fun heq => ?_) s _
    rw [heq] at revision
    exact nomatch (hvalid.get?_eq_none revision).symm.trans he
  | putSecret secrets v => exact (secrets_apart_photons c).agrees_write _ _ id
  | createDeployment | patchDeployment =>
    exact (photons_apart_deployments c).symm.agrees_write _ _ id

/-- The entry of a photon is removed by the deletion of the photon only. -/
theorem get?_delete_of_asks (he : s.get? (c.photons.key id) = some e)
    (hasks : Asks c body past method resource (.delete key) response) :
    (s.delete key).2.get? (c.photons.key id) = some e ∨
      (s.delete key).2.get? (c.photons.key id) = none ∧ method = .delete ∧
        ∃ raw, resource = .photon raw ∧ Parameter.decode? raw = some id := by
  cases hasks with
  | deletePhoton raw id' spelled =>
    rcases Decidable.em (id' = id) with rfl | hne
    · exact Or.inr ⟨KeyStore.get?_delete_self s _, rfl, raw, rfl, spelled⟩
    · rw [KeyStore.get?_delete_of_ne fun heq => hne (c.photons.key_injective heq)]
      exact Or.inl he
  | deleteDeployment raw id' spelled =>
    rw [(photons_apart_deployments c).symm.agrees_delete id' id]
    exact Or.inl he
  | deleteSecret raw name spelled =>
    rw [(secrets_apart_photons c).agrees_delete name id]
    exact Or.inl he

end Kept

/-- A request leaves the entry of a photon as it is, unless it deletes the photon. -/
theorem kept_or_deleted {requestId : String} {r : Request} (hvalid : b.keys.Valid)
    (he : b.keys.get? (c.photons.key id) = some e)
    (run : (Api.handle c requestId r).Alone b past b' rest) :
    b'.keys.get? (c.photons.key id) = some e ∨
      b'.keys.get? (c.photons.key id) = none ∧ r.DeletesPhoton id := by
  have hinvariant : b'.keys.Valid ∧ (b'.keys.get? (c.photons.key id) = some e ∨
      b'.keys.get? (c.photons.key id) = none ∧ r.DeletesPhoton id) := by
    refine Request.preserves (I := fun s => s.Valid ∧ (s.get? (c.photons.key id) = some e ∨
      s.get? (c.photons.key id) = none ∧ r.DeletesPhoton id)) ?_ ?_ ⟨hvalid, Or.inl he⟩ run
    · intro s past resource key expected value response ⟨hvalid, h⟩ revision target hasks
      rcases h with he | ⟨-, hmethod, raw, htarget, -⟩
      · exact ⟨hvalid.write key value, Or.inl (get?_write_of_asks hvalid he revision hasks)⟩
      · -- A request that deletes a photon writes nothing.
        obtain rfl := Option.some.inj (htarget.symm.trans target)
        rw [hmethod] at hasks
        exact nomatch hasks
    · rintro s past resource key response ⟨hvalid, he | ⟨hnone, hdeletes⟩⟩ target hasks
      · refine ⟨hvalid.delete key, (get?_delete_of_asks he hasks).imp_right ?_⟩
        rintro ⟨hnone, hmethod, raw, rfl, spelled⟩
        exact ⟨hnone, hmethod, raw, target, spelled⟩
      · refine ⟨hvalid.delete key, Or.inr ⟨?_, hdeletes⟩⟩
        rcases Decidable.em (key = c.photons.key id) with rfl | hne
        · exact KeyStore.get?_delete_self s _
        · rw [KeyStore.get?_delete_of_ne hne]
          exact hnone
  exact hinvariant.2

/-- Requests are handled one after another, from one backend to another one.  Any of them may have
been broken off. -/
inductive Handles (c : Config) : Backend → List Request → Backend → Prop
  | nil {b : Backend} : Handles c b [] b
  | cons {b b₁ b' : Backend} {r : Request} {rs : List Request} (id : String) (past : List Move)
    (rest : Program Response) (run : (Api.handle c id r).Alone b past b₁ rest)
    (more : Handles c b₁ rs b') : Handles c b (r :: rs) b'

/-- The entry of a photon stays as it is until one of the requests deletes the photon. -/
theorem Handles.kept {rs : List Request} (run : Handles c b rs b') (hvalid : b.keys.Valid)
    (he : b.keys.get? (c.photons.key id) = some e) :
    b'.keys.get? (c.photons.key id) = some e ∨
      ∃ before r after b₁ b₂, rs = before ++ r :: after ∧
        Handles c b before b₁ ∧ b₁.keys.get? (c.photons.key id) = some e ∧
        Handles c b₁ [r] b₂ ∧ r.DeletesPhoton id ∧ b₂.keys.get? (c.photons.key id) = none ∧
        Handles c b₂ after b' := by
  induction run with
  | nil => exact Or.inl he
  | @cons b b₁ b' r rs requestId past rest run more ih =>
    -- What the first request keeps is there for the others.
    rcases kept_or_deleted hvalid he run with he₁ | ⟨hnone, hdeletes⟩
    · refine (ih (run.valid_keys hvalid) he₁).imp_right ?_
      rintro ⟨before, r', after, b₂, b₃, rfl, hbefore, hrest⟩
      exact ⟨r :: before, r', after, b₂, b₃, rfl, .cons requestId past rest run hbefore, hrest⟩
    · exact Or.inr ⟨[], r, rs, b, b₁, rfl, .nil, he, .cons requestId past rest run .nil, hdeletes,
        hnone, more⟩

/-! ### The main result -/

/-- What identifiers of photons show is told by the texts that are digested; whatever requests were
handled, each photon is stored under the identifier of what was uploaded, is read as it was uploaded
but for doubles that are not read back, and stays as it is until it is deleted. -/
theorem Served.addressed (h : Served c b) :
    (∀ s s' : Photon.Spec, s.Decodes → s'.Decodes → s ≠ s' → s.toJson.bytes ≠ s'.toJson.bytes ∧
      (Photon.idOf s = Photon.idOf s' → s.name.map Char.toLower = s'.name.map Char.toLower ∧
        (Sha256.digest s.toJson.bytes.toList).take 4 =
          (Sha256.digest s'.toJson.bytes.toList).take 4)) ∧
    ∀ id e, b.keys.get? (c.photons.key id) = some e →
      (∃ p : Photon, Kind.decode? e.value = some p ∧ p.id = id ∧
        Name.validate p.spec.name = .ok () ∧ p.spec.image.isEmpty = false ∧
        ∃ s createdAt, Registrable s ∧ Photon.idOf s = id ∧
          e.value = Kind.encode (Photon.ofSpec s createdAt) ∧ p.spec = s.reread ∧
          ((∀ j, s.openapiSchema = some j → ∀ x ∈ j.doubles,
            (Decimal.numeral x).toFloat? = some x) → p.spec = s ∧ Photon.idOf p.spec = id)) ∧
      ∀ rs b', Handles c b rs b' → b'.keys.get? (c.photons.key id) = some e ∨
        ∃ before r after b₁ b₂, rs = before ++ r :: after ∧
          Handles c b before b₁ ∧ b₁.keys.get? (c.photons.key id) = some e ∧
          Handles c b₁ [r] b₂ ∧ r.DeletesPhoton id ∧ b₂.keys.get? (c.photons.key id) = none ∧
          Handles c b₂ after b' := by
  refine ⟨fun s s' hs hs' hne => ⟨fun hbytes => hne (hs.eq_of_bytes_eq hs' hbytes),
    Photon.idOf_eq_iff.1⟩, fun id e he => ⟨?_, fun rs b' run => run.kept h.valid he⟩⟩
  obtain ⟨s, createdAt, hs, rfl, hvalue⟩ := h.addresses id e he
  obtain ⟨body, read⟩ := hs.uploaded
  have hstorable := HasBody.storable_ofSpec read createdAt
  refine ⟨(Photon.ofSpec s createdAt).reread, ?_, rfl, hs.named, hs.image, s, createdAt,
    hs, rfl, hvalue, rfl, ?_⟩
  · rw [hvalue]
    exact hstorable.decode?_encode
  · -- Rereading changes nothing but doubles, so the bytes that are digested are the same again.
    intro hdoubles
    have hread : s.IsReadAt 126 := (Photon.isReadAt_of_reader hstorable.reader_toJson).1
    have hsame : s.reread = s := Photon.Spec.reread_eq_self hread hstorable.inRange hdoubles
    show s.reread = s ∧ Photon.idOf s.reread = Photon.idOf s
    rw [hsame]
    exact ⟨rfl, rfl⟩

/-- A photon without a schema is registered. -/
def registration : Request :=
  ⟨.post, "/api/v1/photons", "\x7b\"name\":\"M\",\"image\":\"i\"\x7d".toUTF8⟩

/-- A registered photon without a schema is stored under the identifier of what is read. -/
theorem Served.addressed_registration :
    let c : Config := { scope := "ns", name := "w", state := .normal }
    let now : Timestamp := ⟨1970, 1, 1, 0, 0, 0, 0⟩
    let b := ((Api.handle c "1" registration).undisturbed now .empty).2
    Served c b ∧ ∃ id e, ∃ p : Photon, b.keys.get? (c.photons.key id) = some e ∧
      Kind.decode? e.value = some p ∧ p.id = id ∧ Photon.idOf p.spec = id := by
  intro c now b
  have h : Served c b := Served.empty.undisturbed now [registration]
  -- What the body holds is evaluated; its identifier is not.
  have hphoton : (((Json.ofBytes? registration.body).bind Photon.Spec.reader.run).any fun s =>
      (Name.validate s.name).isOk && !s.image.isEmpty && s.openapiSchema.isNone) = true := by
    decide +kernel
  obtain ⟨spec, read, hspec⟩ := (Option.any_eq_true _ _).1 hphoton
  simp only [Bool.and_eq_true, Bool.not_eq_true', isOk_iff_exists,
    Option.isNone_iff_eq_none] at hspec
  obtain ⟨⟨⟨⟨⟩, named⟩, image⟩, hschema⟩ := hspec
  have hcreate : (Photons.create c spec).run.undisturbed now .empty = _ :=
    Photons.undisturbed_create rfl named image rfl
  obtain ⟨e, he, hdecoded⟩ :
      c.photons.Stored b.keys (Photon.idOf spec) (Photon.ofSpec spec now.millis).reread := by
    unfold b
    rw [undisturbed_createPhoton rfl rfl read hcreate]
    exact (Repository.stored_write (HasBody.storable_ofSpec read _)).2 (if_pos rfl ▸ rfl)
  obtain ⟨⟨p, hp, hid, -, -, s, createdAt, -, -, -, hreread, hsame⟩, -⟩ := h.addressed.2 _ e he
  obtain rfl := Option.some.inj (hdecoded.symm.trans hp)
  have hnone : s.openapiSchema = none := by
    have hmap : spec.openapiSchema.map Json.reread = s.openapiSchema.map Json.reread :=
      congrArg Photon.Spec.openapiSchema hreread
    rw [hschema] at hmap
    exact Option.map_eq_none_iff.1 hmap.symm
  refine ⟨h, _, e, _, he, hdecoded, hid, (hsame fun j hj => ?_).2⟩
  rw [hnone] at hj
  exact nomatch hj

end Workspace

end Workplane
