import Workplane.Proofs.Objects.Deployments
import Workplane.Proofs.Objects.Photons
import Workplane.Proofs.Workspace.Stored
import Workplane.Service.Basic

/-!
# Referential integrity of a store

A deployment refers to a photon and to secrets.  A store is intact (`Workspace.Intact`) when every
entry of the three kinds holds an object under its own name and everything that a deployment refers
to is stored.  Below are the single changes of a store that keep it so (`Workspace.Keeps`): each
lemma says what has to be known of the store before the change.
-/

namespace Workplane.Workspace

open Service

variable {c : Config} {s s' : KeyStore}

/-! ### The repositories of a workspace -/

theorem photons_apart_deployments (c : Config) : c.photons.Apart c.deployments :=
  Repository.apart_of_scope_eq rfl fun _ _ h => nomatch (List.cons.inj h).1

theorem secrets_apart_photons (c : Config) : c.secrets.Apart c.photons :=
  Repository.apart_of_scope_eq rfl fun _ _ h => nomatch (List.cons.inj h).1

theorem secrets_apart_deployments (c : Config) : c.secrets.Apart c.deployments :=
  Repository.apart_of_scope_eq rfl fun _ _ h => nomatch (List.cons.inj h).1

/-! ### Intact stores -/

/-- What a deployment refers to is stored: a photon of the model that it serves, and secrets. -/
structure Referenced (c : Config) (s : KeyStore) (d : Deployment) : Prop where
  photon : ∃ p, c.photons.Stored s d.spec.photonId p ∧ p.spec.name = d.system.photonName
  secrets : ∀ name ∈ d.spec.secretRefs, ∃ v, c.secrets.Stored s name v

/-- The entries of users hold objects under their own names, and no reference dangles. -/
structure Intact (c : Config) (s : KeyStore) : Prop where
  valid : s.Valid
  photons : c.photons.IsClean s
  deployments : c.deployments.IsClean s
  secrets : c.secrets.IsClean s
  referenced : ∀ name d, c.deployments.Stored s name d → Referenced c s d

/-- The store after a change is intact, and no deployment that was there before serves another
model. -/
structure Keeps (c : Config) (s s' : KeyStore) : Prop where
  intact : Intact c s'
  photonName : ∀ name d d', c.deployments.Stored s name d → c.deployments.Stored s' name d' →
    d'.system.photonName = d.system.photonName

theorem intact_empty (c : Config) : Intact c .empty where
  valid := KeyStore.valid_empty
  photons := c.photons.isClean_empty
  deployments := c.deployments.isClean_empty
  secrets := c.secrets.isClean_empty
  referenced _ _ h := (Repository.not_stored_empty h).elim

theorem Intact.keeps_self (h : Intact c s) : Keeps c s s :=
  ⟨h, fun _ _ _ hd hd' => by rw [hd.eq hd']⟩

/-- References stay good while photons and secrets stay. -/
theorem Referenced.mono {d : Deployment} (h : Referenced c s d)
    (hphotons : ∀ id p, c.photons.Stored s id p → ∃ p', c.photons.Stored s' id p' ∧
      p'.spec.name = p.spec.name)
    (hsecrets : ∀ name v, c.secrets.Stored s name v → ∃ v', c.secrets.Stored s' name v') :
    Referenced c s' d := by
  obtain ⟨p, hp, hname⟩ := h.photon
  obtain ⟨p', hp', hname'⟩ := hphotons _ p hp
  refine ⟨⟨p', hp', hname'.trans hname⟩, fun name href => ?_⟩
  obtain ⟨v, hv⟩ := h.secrets name href
  exact hsecrets name v hv

/-- A change that leaves the deployments as they are keeps a store intact if it leaves what they
refer to. -/
theorem Intact.keeps_of_agrees (h : Intact c s) (hvalid : s'.Valid)
    (hphotons : c.photons.IsClean s') (hdeployments : c.deployments.Agrees s s')
    (hsecrets : c.secrets.IsClean s')
    (hreferenced : ∀ name d, c.deployments.Stored s name d → Referenced c s' d) : Keeps c s s' where
  intact := {
    valid := hvalid
    photons := hphotons
    deployments := hdeployments.isClean h.deployments
    secrets := hsecrets
    referenced name d hd := hreferenced name d (hdeployments.stored.1 hd) }
  photonName name d d' hd hd' := by rw [(hdeployments.stored.1 hd').eq hd]

/-! ### Deployments -/

/-- A deployment may be written whose references are good, and which serves the same model as the
one in its place. -/
theorem Intact.keeps_write_deployment (h : Intact c s) {id : String} {d : Deployment}
    (hd : Kind.Storable d) (hid : d.id = id) (hreferenced : Referenced c s d)
    (hsame : ∀ d', c.deployments.Stored s id d' → d.system.photonName = d'.system.photonName) :
    Keeps c s (s.write (c.deployments.key id) (Kind.encode d)) := by
  have hphotons : c.photons.Agrees s (s.write (c.deployments.key id) (Kind.encode d)) :=
    (photons_apart_deployments c).symm.agrees_write id _
  have hsecrets : c.secrets.Agrees s (s.write (c.deployments.key id) (Kind.encode d)) :=
    (secrets_apart_deployments c).symm.agrees_write id _
  have hmono {d' : Deployment} (h' : Referenced c s d') :
      Referenced c (s.write (c.deployments.key id) (Kind.encode d)) d' :=
    h'.mono (fun id p hp => ⟨p, hphotons.stored.2 hp, rfl⟩) fun _ v hv => ⟨v, hsecrets.stored.2 hv⟩
  constructor
  · refine ⟨h.valid.write _ _, hphotons.isClean h.photons, h.deployments.write hd hid,
      hsecrets.isClean h.secrets, fun name d' hd' => ?_⟩
    have hcases := (Repository.stored_write hd).1 hd'
    split at hcases
    · obtain rfl := hcases
      obtain ⟨hphoton, hsecret⟩ := hmono hreferenced
      exact ⟨hphoton, hsecret⟩
    · exact hmono (h.referenced name d' hcases)
  · intro name d₀ d' hd₀ hd'
    have hcases := (Repository.stored_write hd).1 hd'
    split at hcases
    · rename_i heq
      subst heq
      obtain rfl := hcases
      exact hsame d₀ hd₀
    · rw [hd₀.eq hcases]

theorem Intact.keeps_delete_deployment (h : Intact c s) (id : String) :
    Keeps c s (s.delete (c.deployments.key id)).2 := by
  have hphotons : c.photons.Agrees s (s.delete (c.deployments.key id)).2 :=
    (photons_apart_deployments c).symm.agrees_delete id
  have hsecrets : c.secrets.Agrees s (s.delete (c.deployments.key id)).2 :=
    (secrets_apart_deployments c).symm.agrees_delete id
  constructor
  · refine ⟨h.valid.delete _, hphotons.isClean h.photons, h.deployments.delete _,
      hsecrets.isClean h.secrets, fun name d hd => ?_⟩
    have hd := (Repository.stored_delete.1 hd).2
    exact (h.referenced name d hd).mono (fun id p hp => ⟨p, hphotons.stored.2 hp, rfl⟩)
      fun _ v hv => ⟨v, hsecrets.stored.2 hv⟩
  · intro name d d' hd hd'
    rw [hd.eq (Repository.stored_delete.1 hd').2]

/-! ### Photons -/

/-- A photon may be written where there is none. -/
theorem Intact.keeps_write_photon (h : Intact c s) {id : String} {p : Photon}
    (hp : Kind.Storable p) (hid : p.id = id) (habsent : s.get? (c.photons.key id) = none) :
    Keeps c s (s.write (c.photons.key id) (Kind.encode p)) := by
  have hsecrets : c.secrets.Agrees s (s.write (c.photons.key id) (Kind.encode p)) :=
    (secrets_apart_photons c).symm.agrees_write id _
  refine h.keeps_of_agrees (h.valid.write _ _) (h.photons.write hp hid)
    ((photons_apart_deployments c).agrees_write id _) (hsecrets.isClean h.secrets)
    fun name d hd => ?_
  refine (h.referenced name d hd).mono (fun id' p' hp' => ⟨p', ?_, rfl⟩)
    fun _ v hv => ⟨v, hsecrets.stored.2 hv⟩
  rw [Repository.stored_write hp, if_neg]
  · exact hp'
  · rintro rfl
    obtain ⟨e, he, -⟩ := hp'
    rw [habsent] at he
    exact nomatch he

/-- A photon may be deleted that no deployment runs. -/
theorem Intact.keeps_delete_photon (h : Intact c s) {id : String}
    (hunused : ∀ name d, c.deployments.Stored s name d → d.spec.photonId ≠ id) :
    Keeps c s (s.delete (c.photons.key id)).2 := by
  have hsecrets : c.secrets.Agrees s (s.delete (c.photons.key id)).2 :=
    (secrets_apart_photons c).symm.agrees_delete id
  refine h.keeps_of_agrees (h.valid.delete _) (h.photons.delete _)
    ((photons_apart_deployments c).agrees_delete id) (hsecrets.isClean h.secrets)
    fun name d hd => ?_
  obtain ⟨⟨p, hp, hname⟩, hrefs⟩ := h.referenced name d hd
  refine ⟨⟨p, Repository.stored_delete.2 ⟨(hunused name d hd).symm, hp⟩, hname⟩, fun ref href => ?_⟩
  obtain ⟨v, hv⟩ := hrefs ref href
  exact ⟨v, hsecrets.stored.2 hv⟩

/-! ### Secrets -/

theorem Intact.keeps_write_secret (h : Intact c s) {name : String} {v : Secret}
    (hv : Kind.Storable v) (hname : v.name = name) :
    Keeps c s (s.write (c.secrets.key name) (Kind.encode v)) := by
  have hphotons : c.photons.Agrees s (s.write (c.secrets.key name) (Kind.encode v)) :=
    (secrets_apart_photons c).agrees_write name _
  refine h.keeps_of_agrees (h.valid.write _ _) (hphotons.isClean h.photons)
    ((secrets_apart_deployments c).agrees_write name _) (h.secrets.write hv hname) fun _ d hd => ?_
  refine (h.referenced _ d hd).mono (fun id p hp => ⟨p, hphotons.stored.2 hp, rfl⟩)
    fun name' v' hv' => ?_
  rcases Decidable.em (name = name') with rfl | hne
  · exact ⟨_, (Repository.stored_write hv).2 (by rw [if_pos rfl])⟩
  · exact ⟨v', (Repository.stored_write hv).2 (by rwa [if_neg hne])⟩

/-- A secret may be deleted that no deployment refers to. -/
theorem Intact.keeps_delete_secret (h : Intact c s) {name : String}
    (hunused : ∀ id d, c.deployments.Stored s id d → name ∉ d.spec.secretRefs) :
    Keeps c s (s.delete (c.secrets.key name)).2 := by
  have hphotons : c.photons.Agrees s (s.delete (c.secrets.key name)).2 :=
    (secrets_apart_photons c).agrees_delete name
  refine h.keeps_of_agrees (h.valid.delete _) (hphotons.isClean h.photons)
    ((secrets_apart_deployments c).agrees_delete name) (h.secrets.delete _) fun id d hd => ?_
  obtain ⟨⟨p, hp, hmodel⟩, hrefs⟩ := h.referenced id d hd
  refine ⟨⟨p, hphotons.stored.2 hp, hmodel⟩, fun ref href => ?_⟩
  obtain ⟨v, hv⟩ := hrefs ref href
  refine ⟨v, Repository.stored_delete.2 ⟨?_, hv⟩⟩
  rintro rfl
  exact hunused id d hd href

end Workplane.Workspace
