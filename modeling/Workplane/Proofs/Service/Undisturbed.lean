import Workplane.Proofs.Background.ScaleDown
import Workplane.Proofs.Objects.Photons
import Workplane.Service.Deployments
import Workplane.Service.Photons

/-!
# Services that nothing disturbs

What a service does to a backend when every call is answered and the clock stands still.  A service
that finds what it looks for comes to its end, and its end is known from the objects that are
stored; a quota that does not admit a request ends it with a refusal
(`Service.Deployments.undisturbed_checkQuota_of_stored`).
-/

namespace Workplane

variable {α : Type} {now : Timestamp} {b b' : Backend}

/-- A program that fails ends what follows it. -/
theorem undisturbed_run_bind_error {β ε : Type} {p : ExceptT ε Program α}
    {f : α → ExceptT ε Program β} {e : ε} (h : p.run.undisturbed now b = (.error e, b')) :
    (p >>= f).run.undisturbed now b = (.error e, b') := by
  rw [ExceptT.run_bind, Program.undisturbed_bind, h]
  rfl

/-- A program whose result is changed ends with the changed result. -/
theorem undisturbed_run_map {β ε : Type} {p : ExceptT ε Program α} {r : Except ε α}
    (h : p.run.undisturbed now b = (r, b')) (f : α → β) :
    (f <$> p).run.undisturbed now b = (r.map f, b') := by
  rw [map_eq_pure_bind]
  cases r with
  | ok a =>
    rw [undisturbed_run_bind h]
    rfl
  | error e => exact undisturbed_run_bind_error h

theorem isOk_iff_exists {α ε : Type} {x : Except ε α} : x.isOk = true ↔ ∃ a, x = .ok a := by
  cases x with
  | ok a => exact iff_of_true rfl ⟨a, rfl⟩
  | error e => exact iff_of_false nofun nofun

/-! ### Objects in a repository -/

namespace Repository

variable [Kind α] {r : Repository α} {name : String} {a : α}

theorem Stored.undisturbed_get (h : r.Stored b.keys name a) (now : Timestamp) :
    (r.get name).run.undisturbed now b = (.ok a, b) := by
  obtain ⟨e, he, ha⟩ := h
  rw [Repository.get, map_eq_pure_bind, undisturbed_run_bind (undisturbed_getVersioned he ha)]
  rfl

theorem undisturbed_getVersioned_of_absent (h : b.keys.get? (r.key name) = none)
    (now : Timestamp) :
    (r.getVersioned name).run.undisturbed now b =
      (.error (.notFound (Kind.plural α) name), b) := by
  have hget : (r.request "get" (.get (r.key name))).run.undisturbed now b = (.ok none, b) := by
    show (Except.ok (b.keys.get? (r.key name)), b) = _
    rw [h]
  rw [getVersioned, undisturbed_run_bind hget]
  rfl

theorem undisturbed_get_of_absent (h : b.keys.get? (r.key name) = none) (now : Timestamp) :
    (r.get name).run.undisturbed now b = (.error (.notFound (Kind.plural α) name), b) := by
  rw [Repository.get, map_eq_pure_bind]
  exact undisturbed_run_bind_error (undisturbed_getVersioned_of_absent h now)

/-- An object is created under a name that is free. -/
theorem undisturbed_create (h : b.keys.get? (r.key name) = none) (a : α) (now : Timestamp) :
    (r.create name a).run.undisturbed now b =
      (.ok b.keys.nextRevision,
        { b with keys := b.keys.write (r.key name) (Kind.encode a) }) := by
  have hfree : b.keys.revisionOf (r.key name) = 0 := by
    unfold KeyStore.revisionOf
    rw [h]
  have hswap : (r.request "create" (.swap (r.key name) 0 (Kind.encode a))).run.undisturbed now b =
      (.ok ⟨true, b.keys.nextRevision⟩,
        { b with keys := b.keys.write (r.key name) (Kind.encode a) }) := by
    show (Except.ok ((Call.swap (r.key name) 0 (Kind.encode a)).answer b).1,
      ((Call.swap (r.key name) 0 (Kind.encode a)).answer b).2) = _
    rw [Call.answer, KeyStore.compareAndSwap_of_eq hfree]
  rw [Repository.create, undisturbed_run_bind hswap]
  rfl

/-- No object is created under a name that is taken. -/
theorem undisturbed_create_of_taken (h : b.keys.revisionOf (r.key name) ≠ 0) (a : α)
    (now : Timestamp) :
    (r.create name a).run.undisturbed now b =
      (.error (.alreadyExists (Kind.plural α) name), b) := by
  have hswap : (r.request "create" (.swap (r.key name) 0 (Kind.encode a))).run.undisturbed now b =
      (.ok ⟨false, b.keys.revisionOf (r.key name)⟩, b) := by
    show (Except.ok ((Call.swap (r.key name) 0 (Kind.encode a)).answer b).1,
      ((Call.swap (r.key name) 0 (Kind.encode a)).answer b).2) = _
    rw [Call.answer, KeyStore.compareAndSwap_of_ne h]
  rw [Repository.create, undisturbed_run_bind hswap]
  rfl

/-- An update that names another revision than the present one is refused. -/
theorem undisturbed_updateAt_of_ne {revision : UInt64}
    (h : b.keys.revisionOf (r.key name) ≠ revision) (a : α) (now : Timestamp) :
    (r.updateAt name a revision).run.undisturbed now b =
      (.error (if b.keys.revisionOf (r.key name) = 0 then .notFound (Kind.plural α) name
        else .conflict (Kind.plural α) name), b) := by
  have hswap : (r.request "update" (.swap (r.key name) revision (Kind.encode a))).run.undisturbed
      now b = (.ok ⟨false, b.keys.revisionOf (r.key name)⟩, b) := by
    show (Except.ok ((Call.swap (r.key name) revision (Kind.encode a)).answer b).1,
      ((Call.swap (r.key name) revision (Kind.encode a)).answer b).2) = _
    rw [Call.answer, KeyStore.compareAndSwap_of_ne h]
  rw [updateAt, undisturbed_run_bind hswap]
  simp only [Bool.false_eq_true, if_false]
  split <;> rfl

/-- Undisturbed, a deletion succeeds exactly if there is something to delete. -/
theorem undisturbed_delete (r : Repository α) (name : String) (now : Timestamp) (b : Backend) :
    (r.delete name).run.undisturbed now b =
      (if (b.keys.get? (r.key name)).isSome then .ok ()
        else .error (.notFound (Kind.plural α) name),
        { b with keys := (b.keys.delete (r.key name)).2 }) := by
  have hdelete : (r.request "delete" (.delete (r.key name))).run.undisturbed now b =
      (.ok (b.keys.delete (r.key name)).1, { b with keys := (b.keys.delete (r.key name)).2 }) := rfl
  rw [Repository.delete, undisturbed_run_bind hdelete]
  split
  · rename_i hexisted
    rw [if_pos (KeyStore.delete_existed.1 hexisted)]
    rfl
  · rename_i habsent
    rw [if_neg fun hsome => habsent (KeyStore.delete_existed.2 hsome)]
    rfl

end Repository

/-! ### Parts of services -/

namespace Service

open Workspace (Config)

variable {c : Config}

theorem undisturbed_ofStore {p : StoreProgram α} {a : α}
    (h : p.run.undisturbed now b = (.ok a, b')) :
    (ofStore p).run.undisturbed now b = (.ok a, b') := by
  show (Except.mapError Refusal.store <$> p.run).undisturbed now b = _
  rw [map_eq_pure_bind, Program.undisturbed_bind, h]
  rfl

theorem undisturbed_ofStore_of_error {p : StoreProgram α} {e : StoreError}
    (h : p.run.undisturbed now b = (.error e, b')) :
    (ofStore p).run.undisturbed now b = (.error (.store e), b') := by
  show (Except.mapError Refusal.store <$> p.run).undisturbed now b = _
  rw [map_eq_pure_bind, Program.undisturbed_bind, h]
  rfl

theorem undisturbed_ofCheck {check : Except Invalid α} {a : α} (h : check = .ok a)
    (now : Timestamp) (b : Backend) : (ofCheck check).run.undisturbed now b = (.ok a, b) := by
  rw [h]
  rfl

theorem undisturbed_ensureWritable (h : c.state.isWritable = true) (now : Timestamp)
    (b : Backend) : (ensureWritable c).run.undisturbed now b = (.ok (), b) := by
  unfold ensureWritable
  rw [if_pos h]
  rfl

theorem undisturbed_ifFound {p : StoreProgram α} {a : α}
    (h : p.run.undisturbed now b = (.ok a, b')) :
    (ifFound p).run.undisturbed now b = (.ok (some a), b') := by
  apply undisturbed_ofStore
  have hsome :
      (some <$> p : StoreProgram (Option α)).run.undisturbed now b = (.ok (some a), b') := by
    rw [map_eq_pure_bind, undisturbed_run_bind h]
    rfl
  show ((some <$> p : StoreProgram (Option α)).run >>= _).undisturbed now b = _
  rw [Program.undisturbed_bind, hsome]
  rfl

/-- Undisturbed, what is not found is no failure where it need not be. -/
theorem undisturbed_ifFound_of_notFound {p : StoreProgram α} {kind name : String}
    (h : p.run.undisturbed now b = (.error (.notFound kind name), b')) :
    (ifFound p).run.undisturbed now b = (.ok none, b') := by
  apply undisturbed_ofStore
  have hnone : (some <$> p : StoreProgram (Option α)).run.undisturbed now b =
      (.error (.notFound kind name), b') := by
    rw [map_eq_pure_bind]
    exact undisturbed_run_bind_error h
  show ((some <$> p : StoreProgram (Option α)).run >>= _).undisturbed now b = _
  rw [Program.undisturbed_bind, hnone]
  rfl

theorem undisturbed_quota {q : Quota} (h : c.quotas.Stored b.keys c.name q) (now : Timestamp) :
    (quota c).run.undisturbed now b = (.ok (some q), b) :=
  undisturbed_ifFound (h.undisturbed_get now)

/-- Undisturbed, nothing is limited where no quota is stored. -/
theorem undisturbed_quota_of_absent (h : b.keys.get? (c.quotas.key c.name) = none)
    (now : Timestamp) : (quota c).run.undisturbed now b = (.ok none, b) :=
  undisturbed_ifFound_of_notFound (Repository.undisturbed_get_of_absent h now)

/-- Undisturbed, a photon that is stored is found. -/
theorem undisturbed_resolvePhoton {id : String} {p : Photon}
    (h : c.photons.Stored b.keys id p) (now : Timestamp) :
    (resolvePhoton c id).run.undisturbed now b = (.ok p, b) := by
  rw [resolvePhoton, undisturbed_run_bind (undisturbed_ifFound (h.undisturbed_get now))]
  rfl

/-! ### Photons -/

/-- Undisturbed, a photon whose identifier is free is created. -/
theorem Photons.undisturbed_create {spec : Photon.Spec} (hwritable : c.state.isWritable = true)
    (named : Name.validate spec.name = .ok ()) (himage : spec.image.isEmpty = false)
    (free : b.keys.get? (c.photons.key (Photon.ofSpec spec now.millis).id) = none) :
    (Photons.create c spec).run.undisturbed now b =
      (.ok (Photon.ofSpec spec now.millis), { b with
        keys := b.keys.write (c.photons.key (Photon.ofSpec spec now.millis).id)
          (Kind.encode (Photon.ofSpec spec now.millis)) }) := by
  rw [Photons.create, undisturbed_run_bind (undisturbed_ensureWritable hwritable now b),
    undisturbed_run_bind (undisturbed_ofCheck named now b)]
  simp only [himage, Bool.false_eq_true, if_false]
  have hnow : (monadLift Program.now : Service Timestamp).run.undisturbed now b = (.ok now, b) :=
    rfl
  show ((monadLift Program.now : Service Timestamp) >>= _).run.undisturbed now b = _
  rw [undisturbed_run_bind hnow, undisturbed_run_bind
    (undisturbed_ofStore (Repository.undisturbed_create free _ now))]
  rfl

/-! ### Deployments -/

namespace Deployments

variable {spec : Deployment.Spec}

/-- A specification passes that is valid and refers to stored secrets only. -/
theorem undisturbed_checkSpec (checked : spec.validate = .ok ())
    (secrets : ∀ name ∈ spec.secretRefs, ∃ v, c.secrets.Stored b.keys name v)
    (now : Timestamp) : (checkSpec c spec).run.undisturbed now b = (.ok (), b) := by
  have hrefs : (spec.secretRefs.forM (checkSecret c)).run.undisturbed now b = (.ok (), b) := by
    generalize spec.secretRefs = names at secrets
    induction names with
    | nil => rfl
    | cons name rest ih =>
      obtain ⟨v, hv⟩ := secrets name (.head rest)
      have hfirst : (checkSecret c name).run.undisturbed now b = (.ok (), b) := by
        rw [checkSecret, undisturbed_run_bind (undisturbed_ifFound (hv.undisturbed_get now))]
        rfl
      show (checkSecret c name >>= fun _ => rest.forM (checkSecret c)).run.undisturbed now b = _
      rw [undisturbed_run_bind hfirst]
      exact ih fun name hname => secrets name (.tail _ hname)
  rw [checkSpec, undisturbed_run_bind (undisturbed_ofCheck checked now b)]
  exact hrefs

/-- A stored quota decides whether a request is admitted. -/
theorem undisturbed_checkQuota_of_stored {q : Quota} (h : c.quotas.Stored b.keys c.name q)
    (requested : Resources) (replaced : Option Resources) (now : Timestamp) :
    (checkQuota c requested replaced).run.undisturbed now b =
      (if Quota.admits (some q) requested replaced then .ok () else .error (.overQuota requested),
        b) := by
  rw [checkQuota, undisturbed_run_bind (undisturbed_quota h now)]
  split <;> rfl

/-- Everything is admitted where there is no quota. -/
theorem undisturbed_checkQuota_of_absent (h : b.keys.get? (c.quotas.key c.name) = none)
    (requested : Resources) (replaced : Option Resources) (now : Timestamp) :
    (checkQuota c requested replaced).run.undisturbed now b = (.ok (), b) := by
  rw [checkQuota, undisturbed_run_bind (undisturbed_quota_of_absent h now)]
  rfl

/-- A deployment that passes all checks is created under an identifier that is free. -/
theorem undisturbed_create {photon : Photon} {requested : Resources}
    (hwritable : c.state.isWritable = true) (named : Name.validate spec.name = .ok ())
    (checked : spec.validate = .ok ())
    (secrets : ∀ name ∈ spec.secretRefs, ∃ v, c.secrets.Stored b.keys name v)
    (total : spec.requirement.total = .ok requested)
    (admitted : (checkQuota c requested none).run.undisturbed now b = (.ok (), b))
    (hphoton : c.photons.Stored b.keys spec.photonId photon)
    (free : b.keys.get? (c.deployments.key (Name.deploymentId spec.name)) = none) :
    (create c spec).run.undisturbed now b =
      (.ok (start c spec photon now.millis), { b with
        keys := b.keys.write (c.deployments.key (Name.deploymentId spec.name))
          (Kind.encode (start c spec photon now.millis)) }) := by
  rw [create, undisturbed_run_bind (undisturbed_ensureWritable hwritable now b),
    undisturbed_run_bind (undisturbed_ofCheck named now b),
    undisturbed_run_bind (undisturbed_checkSpec checked secrets now),
    undisturbed_run_bind (undisturbed_ofCheck total now b), undisturbed_run_bind admitted,
    undisturbed_run_bind (undisturbed_resolvePhoton hphoton now)]
  have hnow : (monadLift Program.now : Service Timestamp).run.undisturbed now b = (.ok now, b) :=
    rfl
  have hcreate := undisturbed_ofStore
    (Repository.undisturbed_create free (start c spec photon now.millis) now)
  show ((monadLift Program.now : Service Timestamp) >>= _).run.undisturbed now b = _
  rw [undisturbed_run_bind hnow]
  exact undisturbed_run_bind hcreate

/-- A patch that keeps the photon and passes all checks takes the place of what it is based on. -/
theorem undisturbed_patch {id : String} {p : Patch} {d : Deployment}
    {replaced requested : Resources} (hwritable : c.state.isWritable = true)
    (stored : c.deployments.Stored b.keys id d) (hphoton : p.newPhotonId = none)
    (effective : p.isEffective = true) (checked : (p.apply d.spec).validate = .ok ())
    (secrets : ∀ name ∈ (p.apply d.spec).secretRefs, ∃ v, c.secrets.Stored b.keys name v)
    (before : d.spec.requirement.total = .ok replaced)
    (after : (p.apply d.spec).requirement.total = .ok requested)
    (admitted : (checkQuota c requested (some replaced)).run.undisturbed now b = (.ok (), b)) :
    (patch c id p).run.undisturbed now b =
      (.ok (patched c p none d now.millis), { b with
        keys := b.keys.write (c.deployments.key id)
          (Kind.encode (patched c p none d now.millis)) }) := by
  obtain ⟨e, he, hd⟩ := stored
  have hsame : (newPhoton c p d).run.undisturbed now b = (.ok none, b) := by
    unfold newPhoton
    rw [hphoton]
    rfl
  rw [patch, undisturbed_run_bind (undisturbed_ensureWritable hwritable now b),
    undisturbed_run_bind (undisturbed_ofStore (Repository.undisturbed_getVersioned he hd)),
    undisturbed_run_bind hsame]
  simp only [effective, Bool.not_true, Bool.false_and, Bool.false_eq_true, if_false]
  rw [undisturbed_run_bind (undisturbed_checkSpec checked secrets now),
    undisturbed_run_bind (undisturbed_ofCheck before now b),
    undisturbed_run_bind (undisturbed_ofCheck after now b), undisturbed_run_bind admitted]
  have hnow : (monadLift Program.now : Service Timestamp).run.undisturbed now b = (.ok now, b) :=
    rfl
  show ((monadLift Program.now : Service Timestamp) >>= _).run.undisturbed now b = _
  rw [undisturbed_run_bind hnow, undisturbed_run_bind
    (undisturbed_ofStore (Repository.undisturbed_updateAt (KeyStore.revisionOf_of_get? he)))]
  rfl

end Deployments

end Service

end Workplane
