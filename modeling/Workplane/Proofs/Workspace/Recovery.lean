import Workplane.Proofs.Http.Undisturbed
import Workplane.Proofs.Storage.Restore

/-!
# What a workspace recovers from its backups

A backup of secrets is always recovered.  The schema of a photon may be nested 126 levels deep in a
request and in a stored photon, but only 124 in a snapshot, where every object stands two levels
deeper: a schema in between makes every restore of photons fail
(`Workspace.Session.recovers_iff`).  Moreover numbers are read from decimals only approximately, so
a schema or a requirement that is restored can differ from what was stored; it is the same exactly
if reading twice more keeps it.
-/

namespace Workplane

/-! ### Objects that are read twice more -/

theorem Photon.reread_reread_eq_iff (p : Photon) :
    p.reread.reread = p ↔ ∀ j, p.spec.openapiSchema = some j → j.reread.reread = j := by
  obtain ⟨id, ⟨name, model, image, exposedPaths, requirementDependency, entrypoint, openapiSchema,
    labels⟩, createdAt⟩ := p
  cases openapiSchema <;> simp [Photon.reread, Photon.Spec.reread]

theorem Deployment.reread_reread_eq_iff (d : Deployment) :
    d.reread.reread = d ↔
      Double.reread (Double.reread d.spec.requirement.cpu) = d.spec.requirement.cpu ∧
        Double.reread (Double.reread d.spec.requirement.accelerators) =
          d.spec.requirement.accelerators := by
  constructor
  · intro h
    have hrequirement := congrArg (fun d : Deployment => d.spec.requirement) h
    exact ⟨congrArg Requirement.cpu hrequirement, congrArg Requirement.accelerators hrequirement⟩
  · rintro ⟨hcpu, haccelerators⟩
    unfold reread Requirement.reread
    simp only [hcpu, haccelerators]

namespace Workspace

open Http Service

variable {c : Config} {b : Backend} {past : List Backend} {rest : Program Unit}

/-! ### Recovery in a session -/

/-- What a backup of a workspace recovers after any calls that leave the snapshot alone.  Photons
are recovered exactly if no schema is nested more than 124 levels deep and the numbers of the
schemas that are restored survive two readings; if one is nested deeper the restore fails and
changes nothing.  Deployments are recovered exactly if the doubles of those that are restored
survive two readings, and secrets always. -/
theorem Session.recovers_iff (h : Session c past b rest) {now : Timestamp} (hnow : now.IsMoment)
    (calls : List Call) :
    ((∀ data, .putBlob c.photons.backupKey data ∉ calls) →
      (c.photons.Recovers now calls b ↔ ∀ id p j, c.photons.Stored b.keys id p →
        p.spec.openapiSchema = some j → j.depth ≤ 124 ∧
          ((c.photons.afterBackup now calls b).keys.get? (c.photons.key id) = none →
            j.reread.reread = j)) ∧
      ((∃ id p j, c.photons.Stored b.keys id p ∧ p.spec.openapiSchema = some j ∧ 124 < j.depth) →
        c.photons.restore.run.undisturbed now (c.photons.afterBackup now calls b) =
          (.error (.serialization "photons" "not a snapshot of this kind"),
            c.photons.afterBackup now calls b))) ∧
    ((∀ data, .putBlob c.deployments.backupKey data ∉ calls) →
      (c.deployments.Recovers now calls b ↔ ∀ id d, c.deployments.Stored b.keys id d →
        (c.deployments.afterBackup now calls b).keys.get? (c.deployments.key id) = none →
          Double.reread (Double.reread d.spec.requirement.cpu) = d.spec.requirement.cpu ∧
            Double.reread (Double.reread d.spec.requirement.accelerators) =
              d.spec.requirement.accelerators)) ∧
    ((∀ data, .putBlob c.secrets.backupKey data ∉ calls) → c.secrets.Recovers now calls b) := by
  obtain ⟨-, hintact, -⟩ := h.keeps
  have hb := hintact b (List.mem_append_right _ (.head []))
  refine ⟨fun hcalls => ⟨?_, ?_⟩, fun hcalls => ?_, fun hcalls => ?_⟩
  · rw [Repository.recovers_iff_fits hb.photons hb.valid hnow hcalls]
    constructor
    · intro hall id p j hp hj
      obtain ⟨hfits, hsame⟩ := hall id p hp
      refine ⟨(Photon.fitsSnapshot_iff hp.storable).1 hfits j hj, fun hfree => ?_⟩
      exact p.reread_reread_eq_iff.1 (hsame hfree) j hj
    · intro hall id p hp
      refine ⟨(Photon.fitsSnapshot_iff hp.storable).2 fun j hj => (hall id p j hp hj).1, ?_⟩
      intro hfree
      exact p.reread_reread_eq_iff.2 fun j hj => (hall id p j hp hj).2 hfree
  · rintro ⟨id, p, j, hp, hj, hdepth⟩
    refine Repository.undisturbed_restore_of_not_fits hnow hcalls
      (Repository.mem_listed.2 ⟨id, hp⟩) fun hfits => ?_
    exact Nat.not_le.2 hdepth ((Photon.fitsSnapshot_iff hp.storable).1 hfits j hj)
  · rw [Repository.recovers_iff_fits hb.deployments hb.valid hnow hcalls]
    constructor
    · exact fun hall id d hd hfree => d.reread_reread_eq_iff.1 ((hall id d hd).2 hfree)
    · exact fun hall id d hd =>
        ⟨d.fitsSnapshot, fun hfree => d.reread_reread_eq_iff.2 (hall id d hd hfree)⟩
  · refine (Repository.recovers_iff_fits hb.secrets hb.valid hnow hcalls).2 fun _ v _ => ?_
    exact ⟨v.fitsSnapshot, fun _ => rfl⟩

/-- A photon whose schema is nested 125 levels deep. -/
def Operation.deepPhoton : Operation :=
  .request "1" ⟨.post, "/api/v1/photons",
    ("\x7b\"name\":\"m\",\"image\":\"i\",\"openapi_schema\":" ++
      String.ofList (List.replicate 125 '[' ++ List.replicate 125 ']') ++ "\x7d").toUTF8⟩

/-- A photon that was registered with a deep schema is not recovered after its deletion. -/
theorem Session.recovers_iff_deepPhoton :
    let c : Config := { scope := "ns", name := "w", state := .normal }
    let now : Timestamp := ⟨1970, 1, 1, 0, 0, 0, 0⟩
    let b := Operation.afterAll c now [.deepPhoton] .empty
    ∃ past id p, Session c past b (.done ()) ∧ c.photons.Stored b.keys id p ∧
      (c.photons.restore.run.undisturbed now
        (c.photons.afterBackup now [.delete (c.photons.key id)] b)).1 =
          .error (.serialization "photons" "not a snapshot of this kind") := by
  intro c now b
  obtain ⟨past, h⟩ := Session.start.afterAll (c := c) now [.deepPhoton]
  -- The body is read; the photon that it describes is followed without its digest.
  obtain ⟨r, hr, target, method, hbody⟩ : ∃ r : Request, Operation.deepPhoton = .request "1" r ∧
      Resource.ofTarget r.target = some .photons ∧ r.method = .post ∧
      ((Json.ofBytes? r.body).bind Photon.Spec.reader.run).any (fun s =>
        (Name.validate s.name).isOk && !s.image.isEmpty &&
          s.openapiSchema.any fun j => decide (124 < j.depth)) = true :=
    ⟨_, rfl, rfl, rfl, by decide +kernel⟩
  obtain ⟨spec, read, hspec⟩ := (Option.any_eq_true _ _).1 hbody
  simp only [Bool.and_eq_true, Bool.not_eq_true', isOk_iff_exists, Option.any_eq_true,
    decide_eq_true_eq] at hspec
  obtain ⟨⟨⟨⟨⟩, named⟩, himage⟩, j, hj, hdepth⟩ := hspec
  have hcreate : (Photons.create c spec).run.undisturbed now .empty = _ :=
    Photons.undisturbed_create rfl named himage rfl
  have hhandle : (Api.handle c "1" r).undisturbed now .empty = _ :=
    undisturbed_createPhoton target method read hcreate
  have hb : b = ((Api.handle c "1" r).undisturbed now .empty).2 := by
    unfold b
    rw [hr, Operation.afterAll, List.foldl_cons, List.foldl_nil, Operation.program,
      map_eq_pure_bind, Program.undisturbed_bind]
    rfl
  have hstorable := HasBody.storable_ofSpec read now.millis
  have hp : c.photons.Stored b.keys (Photon.idOf spec) (Photon.ofSpec spec now.millis).reread := by
    rw [hb, hhandle]
    exact (Repository.stored_write hstorable).2 (if_pos rfl ▸ rfl)
  have hschema : (Photon.ofSpec spec now.millis).reread.spec.openapiSchema = some j.reread := by
    show spec.openapiSchema.map Json.reread = _
    rw [hj, Option.map_some]
  have hdeep : 124 < j.reread.depth := by
    rw [Json.depth_reread (hstorable.inRange j hj)]
    exact hdepth
  have hnow : now.IsMoment := by decide
  have hrestore := ((h.recovers_iff hnow [.delete (c.photons.key (Photon.idOf spec))]).1
    (by simp)).2 ⟨_, _, _, hp, hschema, hdeep⟩
  exact ⟨past, _, _, h, hp, congrArg Prod.fst hrestore⟩

end Workspace

end Workplane
