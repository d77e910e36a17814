import Workplane.Proofs.Secrecy.Twins
import Workplane.Service.Deployments
import Workplane.Service.Diagnosis
import Workplane.Service.Photons
import Workplane.Service.Secrets

/-!
# Services as twins

Every service is the twin of itself, and storing secrets is the twin of storing other values under
the same names (`Service.twins_putSecrets`).  What a service returns is the same behind the mask of
its kind.
-/

namespace Workplane

open Workspace (Config)

variable {α : Type} {c : Config}

/-! ### Parts of services -/

namespace Service

theorem twins_ofStore {α' : Type} {R : α → α' → Prop} {p : StoreProgram α} {p' : StoreProgram α'}
    (h : Twins c R p p') : Twins c R (ofStore p) (ofStore p') :=
  h.adapt Refusal.store

/-- Checks of the same declaration end alike. -/
theorem twins_ofCheck (check : Except Invalid α) : Twins c Eq (ofCheck check) (ofCheck check) := by
  cases check with
  | ok a => exact twins_pure rfl
  | error i => exact twins_throw _

theorem twins_ifFound {α' : Type} {R : α → α' → Prop} {p : StoreProgram α} {p' : StoreProgram α'}
    (h : Twins c R p p') : Twins c (Option.Rel R) (ifFound p) (ifFound p') := by
  refine twins_ofStore ((h.map fun _ _ related => .some related).tryCatch fun e => ?_)
  cases e with
  | notFound kind name => exact twins_pure .none
  | _ => exact twins_throw _

theorem twins_ensureWritable (c : Config) : Twins c Eq (ensureWritable c) (ensureWritable c) := by
  unfold ensureWritable
  split
  · exact twins_pure rfl
  · exact twins_throw _

theorem twins_now (c : Config) :
    Twins c (fun _ _ => True) (monadLift Program.now : Service Timestamp) (monadLift Program.now) :=
  twins_lift (Program.twins_now c)

theorem twins_quota (c : Config) : Twins c Eq (quota c) (quota c) := by
  refine (twins_ifFound (Repository.twins_get (readsAlike_quotas c) c.name)).mono ?_
  rintro q q' (h | _)
  · exact congrArg some h.mask_eq
  · rfl

/-- The photons that are resolved differ at most in what is hidden. -/
theorem twins_resolvePhoton (c : Config) (id : String) :
    Twins c Kind.Alike (resolvePhoton c id) (resolvePhoton c id) := by
  refine (twins_ifFound (Repository.twins_get (readsAlike_photons c) id)).bind ?_
  rintro p p' (h | _)
  · exact twins_pure h
  · exact twins_throw _

/-! ### Objects behind the mask -/

section Mask

variable [Kind α] [Kind.Lawful α] [Kind.Masked α] {as as' : List α}

open Kind.Masked (mask)

/-- Sorting by what is not masked gives lists that are the same behind the mask. -/
theorem map_mask_mergeSort {le : α → α → Bool} (hle : ∀ a b, le a b = le (mask a) (mask b))
    (h : as.map mask = as'.map mask) :
    (as.mergeSort le).map mask = (as'.mergeSort le).map mask := by
  rw [List.map_mergeSort fun a _ b _ => hle a b, List.map_mergeSort fun a _ b _ => hle a b, h]

/-- Searching for what is not masked finds the same behind the mask. -/
theorem map_mask_find? (found : α → Bool) (hfound : ∀ a, found a = found (mask a))
    (h : as.map mask = as'.map mask) : (as.find? found).map mask = (as'.find? found).map mask := by
  have hfind (bs : List α) : (bs.find? found).map mask = (bs.map mask).find? found := by
    rw [List.find?_map]
    congr 2
    funext a
    exact hfound a
  rw [hfind, hfind, h]

end Mask

/-! ### Photons -/

open Kind.Masked (mask)

/-- Listings of photons show the same once what is hidden is left out. -/
theorem twins_listPhotons (c : Config) :
    Twins c (fun ps ps' => ps.map mask = ps'.map mask) (Photons.list c) (Photons.list c) := by
  refine (twins_ofStore (Repository.twins_list (readsAlike_photons c))).bind fun ps ps' h => ?_
  exact twins_pure (map_mask_mergeSort (fun _ _ => rfl) (Kind.map_mask_eq h))

theorem twins_getPhoton (c : Config) (id : String) :
    Twins c Kind.Alike (Photons.get c id) (Photons.get c id) :=
  twins_ofStore (Repository.twins_get (readsAlike_photons c) id)

/-- Two runs that store the same photon end alike. -/
theorem twins_createPhoton {spec : Photon.Spec}
    (hspec : ∀ now, Kind.Storable (Photon.ofSpec spec now)) :
    Twins c (fun p p' => mask p = mask p') (Photons.create c spec) (Photons.create c spec) := by
  refine (twins_ensureWritable c).bind fun _ _ _ => (twins_ofCheck _).bind fun _ _ _ => ?_
  split
  · exact twins_throw _
  refine (twins_now c).bind fun now now' _ => ?_
  have halike : Kind.Alike (Photon.ofSpec spec now.millis) (Photon.ofSpec spec now'.millis) :=
    ⟨rfl, hspec _, hspec _⟩
  refine (twins_ofStore (Repository.twins_create (.photon _ _ _ halike rfl))).bind fun _ _ _ => ?_
  exact twins_pure halike.mask_eq

theorem twins_deletePhoton (c : Config) (id : String) :
    Twins c (fun _ _ => True) (Photons.delete c id) (Photons.delete c id) := by
  refine (twins_ensureWritable c).bind fun _ _ _ => ?_
  refine (twins_ofStore (Repository.twins_list (readsAlike_deployments c))).bind fun ds ds' h => ?_
  have hfind := map_mask_find? (fun d : Deployment => d.spec.photonId == id)
    (fun _ => rfl) (Kind.map_mask_eq h)
  revert hfind
  generalize ds.find? _ = d, ds'.find? _ = d'
  intro hfind
  cases d with
  | none =>
    obtain rfl : d' = none := Option.map_eq_none_iff.1 hfind.symm
    exact twins_ofStore (c.photons.twins_delete id)
  | some d =>
    obtain ⟨d', rfl, hd⟩ := Option.map_eq_some_iff.1 hfind.symm
    obtain ⟨created, updated, rfl⟩ := Deployment.exists_of_mask_eq hd.symm
    exact twins_throw (Refusal.photonInUse id d.id)

/-! ### Deployments -/

theorem twins_listDeployments (c : Config) :
    Twins c (fun ds ds' => ds.map mask = ds'.map mask) (Deployments.list c)
      (Deployments.list c) := by
  refine (twins_ofStore (Repository.twins_list (readsAlike_deployments c))).bind fun ds ds' h => ?_
  exact twins_pure (map_mask_mergeSort (fun _ _ => rfl) (Kind.map_mask_eq h))

theorem twins_getDeployment (c : Config) (id : String) :
    Twins c Kind.Alike (Deployments.get c id) (Deployments.get c id) :=
  twins_ofStore (Repository.twins_get (readsAlike_deployments c) id)

/-- Whether a secret is there does not depend on its value. -/
theorem twins_checkSecret (c : Config) (name : String) :
    Twins c (fun _ _ => True) (Deployments.checkSecret c name)
      (Deployments.checkSecret c name) := by
  refine (twins_ifFound (Repository.twins_get (readsAlike_secrets c) name)).bind ?_
  rintro v v' (h | _)
  · exact twins_pure trivial
  · exact twins_throw _

theorem twins_checkSpec (c : Config) (spec : Deployment.Spec) :
    Twins c (fun _ _ => True) (Deployments.checkSpec c spec) (Deployments.checkSpec c spec) := by
  refine (twins_ofCheck _).bind fun _ _ _ => twins_forM (S := Eq) ?_ (List.forall₂_refl _)
  rintro name _ rfl
  exact twins_checkSecret c name

/-- Quotas hold nothing that is hidden. -/
theorem twins_checkQuota (c : Config) (requested : Resources) (replaced : Option Resources) :
    Twins c (fun _ _ => True) (Deployments.checkQuota c requested replaced)
      (Deployments.checkQuota c requested replaced) := by
  refine (twins_quota c).bind ?_
  rintro quota _ rfl
  split
  · exact twins_pure trivial
  · exact twins_throw _

theorem twins_createDeployment {spec : Deployment.Spec} (hspec : spec.requirement.InRange) :
    Twins c (fun d d' => mask d = mask d') (Deployments.create c spec)
      (Deployments.create c spec) := by
  refine (twins_ensureWritable c).bind fun _ _ _ => (twins_ofCheck _).bind fun _ _ _ => ?_
  refine (twins_checkSpec c spec).bind fun _ _ _ => (twins_ofCheck _).bind ?_
  rintro requested _ rfl
  refine (twins_checkQuota c requested none).bind fun _ _ _ => ?_
  refine (twins_resolvePhoton c spec.photonId).bind fun p p' hp => ?_
  refine (twins_now c).bind fun now now' _ => ?_
  obtain ⟨created, rfl⟩ := Photon.exists_of_mask_eq hp.mask_eq
  have halike : Kind.Alike (Deployments.start c spec p now.millis)
      (Deployments.start c spec _ now'.millis) :=
    ⟨rfl, Deployment.storable hspec, Deployment.storable hspec⟩
  refine (twins_ofStore (Repository.twins_create (.deployment _ _ _ halike rfl))).bind ?_
  exact fun _ _ _ => twins_pure halike.mask_eq

/-- A patch looks for the same photon in both runs. -/
theorem twins_newPhoton (c : Config) (p : Patch) {d d' : Deployment} (hd : mask d = mask d') :
    Twins c (Option.Rel Kind.Alike) (Deployments.newPhoton c p d) (Deployments.newPhoton c p d') := by
  obtain ⟨created, updated, rfl⟩ := Deployment.exists_of_mask_eq hd
  unfold Deployments.newPhoton
  cases p.newPhotonId with
  | none => exact twins_pure .none
  | some id =>
    refine (twins_resolvePhoton c id).bind fun photon photon' hphoton => ?_
    obtain ⟨created, rfl⟩ := Photon.exists_of_mask_eq hphoton.mask_eq
    dsimp only
    split
    · exact twins_pure (.some hphoton)
    · exact twins_throw _

/-- A patch of deployments that are alike gives deployments that are alike. -/
theorem alike_patched (c : Config) (p : Patch) {photon photon' : Option Photon}
    (hphoton : Option.Rel Kind.Alike photon photon') {d d' : Deployment} (hd : Kind.Alike d d')
    (now now' : UInt64) :
    Kind.Alike (Deployments.patched c p photon d now) (Deployments.patched c p photon' d' now') := by
  refine ⟨?_, Deployment.storable (p.inRange_apply hd.left.inRange),
    Deployment.storable (p.inRange_apply hd.right.inRange)⟩
  obtain ⟨created, updated, rfl⟩ := Deployment.exists_of_mask_eq hd.mask_eq
  rcases hphoton with h | _
  · obtain ⟨created, rfl⟩ := Photon.exists_of_mask_eq h.mask_eq
    unfold Deployments.patched Deployments.patchedImage
    cases p.newImage with
    | none => rfl
    | some image => rfl
  · rfl

/-- Two runs that apply the same patch end alike. -/
theorem twins_patchDeployment (c : Config) (id : String) (p : Patch) :
    Twins c (fun d d' => mask d = mask d') (Deployments.patch c id p)
      (Deployments.patch c id p) := by
  refine (twins_ensureWritable c).bind fun _ _ _ => ?_
  refine (twins_ofStore (Repository.twins_getVersioned (readsAlike_deployments c) id)).bind ?_
  rintro ⟨d, revision⟩ ⟨d', _⟩ ⟨hd, rfl⟩
  refine (twins_newPhoton c p hd.mask_eq).bind fun photon photon' hphoton => ?_
  have halike := alike_patched c p hphoton hd
  obtain ⟨created, updated, rfl⟩ := Deployment.exists_of_mask_eq hd.mask_eq
  dsimp only
  split
  · exact twins_throw _
  refine (twins_checkSpec c _).bind fun _ _ _ => (twins_ofCheck _).bind ?_
  rintro replaced _ rfl
  refine (twins_ofCheck _).bind ?_
  rintro requested _ rfl
  refine (twins_checkQuota c requested (some replaced)).bind fun _ _ _ => ?_
  refine (twins_now c).bind fun now now' _ => ?_
  refine (twins_ofStore (Repository.twins_updateAt revision
    (.deployment _ _ _ (halike now.millis now'.millis) rfl))).bind fun _ _ _ => ?_
  exact twins_pure (halike now.millis now'.millis).mask_eq

theorem twins_deleteDeployment (c : Config) (id : String) :
    Twins c (fun _ _ => True) (Deployments.delete c id) (Deployments.delete c id) :=
  (twins_ensureWritable c).bind fun _ _ _ => twins_ofStore (c.deployments.twins_delete id)

/-! ### Secrets -/

/-- Only the name of a secret is not masked. -/
theorem mask_eq_of_name_eq {v v' : Secret} (h : v.name = v'.name) : mask v = mask v' := by
  show ({ v with value := "" } : Secret) = { v' with value := "" }
  rw [h]

/-- Only the names of secrets are shown. -/
theorem twins_secretNames (c : Config) : Twins c Eq (Secrets.names c) (Secrets.names c) := by
  refine (twins_ofStore (Repository.twins_list (readsAlike_secrets c))).bind fun vs vs' h => ?_
  have hnames : vs.map Secret.name = vs'.map Secret.name := by
    have hmask := congrArg (List.map Secret.name) (Kind.map_mask_eq h)
    rwa [List.map_map, List.map_map] at hmask
  refine twins_pure ?_
  rw [hnames]

theorem twins_checkName {v v' : Secret} (h : v.name = v'.name) :
    Twins c (fun _ _ => True) (Secrets.checkName v) (Secrets.checkName v') := by
  unfold Secrets.checkName
  rw [h]
  split
  · exact twins_pure trivial
  · exact twins_throw _

/-- Storing a value is the twin of storing another one under the same name. -/
theorem twins_putSecret (c : Config) {v v' : Secret} (h : v.name = v'.name) :
    Twins c (fun _ _ => True) (Secrets.put c v) (Secrets.put c v') := by
  have halike : Kind.Alike v v' := ⟨mask_eq_of_name_eq h, v.storable, v'.storable⟩
  unfold Secrets.put
  rw [← h]
  refine (twins_ifFound (Repository.twins_getVersioned (readsAlike_secrets c) v.name)).bind ?_
  rintro current current' (⟨-, hrevision⟩ | _)
  · dsimp only
    rw [hrevision]
    exact (twins_ofStore (Repository.twins_updateAt _ (.secret _ _ _ halike rfl))).bind
      fun _ _ _ => twins_pure trivial
  · exact (twins_ofStore (Repository.twins_create (.secret _ _ _ halike rfl))).bind
      fun _ _ _ => twins_pure trivial

/-- Two runs that put secrets of the same names end alike, whatever the values are. -/
theorem twins_putSecrets (c : Config) {vs vs' : List Secret}
    (h : vs.map Secret.name = vs'.map Secret.name) :
    Twins c (fun _ _ => True) (Secrets.putAll c vs) (Secrets.putAll c vs') := by
  rw [← List.forall₂_eq_eq_eq, List.forall₂_map_left_iff, List.forall₂_map_right_iff] at h
  refine (twins_ensureWritable c).bind fun _ _ _ => ?_
  refine (twins_forM (S := fun v v' : Secret => v.name = v'.name)
    (fun _ _ hname => twins_checkName hname) h).bind fun _ _ _ => ?_
  exact twins_forM (fun _ _ hname => twins_putSecret c hname) h

theorem twins_deleteSecret (c : Config) (name : String) :
    Twins c (fun _ _ => True) (Secrets.delete c name) (Secrets.delete c name) := by
  refine (twins_ensureWritable c).bind fun _ _ _ => ?_
  refine (twins_ofStore (Repository.twins_list (readsAlike_deployments c))).bind fun ds ds' h => ?_
  have hfind := map_mask_find? (fun d : Deployment => d.spec.secretRefs.contains name)
    (fun _ => rfl) (Kind.map_mask_eq h)
  revert hfind
  generalize ds.find? _ = d, ds'.find? _ = d'
  intro hfind
  cases d with
  | none =>
    obtain rfl : d' = none := Option.map_eq_none_iff.1 hfind.symm
    exact twins_ofStore (c.secrets.twins_delete name)
  | some d =>
    obtain ⟨d', rfl, hd⟩ := Option.map_eq_some_iff.1 hfind.symm
    obtain ⟨created, updated, rfl⟩ := Deployment.exists_of_mask_eq hd.symm
    exact twins_throw (Refusal.secretInUse name d.id)

/-! ### Diagnosis -/

/-- Lists of objects that are alike are the same where nothing is masked. -/
theorem eq_of_forall₂_alike [Kind α] [Kind.Lawful α] [Kind.Masked α]
    (hmask : ∀ a : α, mask a = a) {as as' : List α} (h : List.Forall₂ Kind.Alike as as') :
    as = as' := by
  have hmap := Kind.map_mask_eq h
  rwa [List.map_congr_left fun a _ => hmask a, List.map_congr_left fun a _ => hmask a,
    List.map_id', List.map_id'] at hmap

/-- Pods hold nothing that is hidden. -/
theorem twins_replicas (c : Config) (id : String) :
    Twins c Eq (Diagnosis.replicas c id) (Diagnosis.replicas c id) := by
  refine (twins_getDeployment c id).bind fun _ _ _ => ?_
  refine (twins_ofStore (Repository.twins_list (readsAlike_pods c))).bind fun pods pods' h => ?_
  obtain rfl := eq_of_forall₂_alike (fun _ => rfl) h
  exact twins_pure rfl

theorem twins_readiness (c : Config) (id : String) :
    Twins c Eq (Diagnosis.readiness c id) (Diagnosis.readiness c id) := by
  refine (twins_replicas c id).bind ?_
  rintro pods _ rfl
  refine (twins_lift (Repository.twins_list (readsAlike_events c))).bind ?_
  rintro events events' (h | e)
  · obtain rfl := eq_of_forall₂_alike (fun _ => rfl) h
    exact twins_pure rfl
  · exact twins_pure rfl

theorem twins_terminations (c : Config) (id : String) :
    Twins c Eq (Diagnosis.terminations c id) (Diagnosis.terminations c id) := by
  refine (twins_replicas c id).bind ?_
  rintro pods _ rfl
  exact twins_pure rfl

end Service

end Workplane
