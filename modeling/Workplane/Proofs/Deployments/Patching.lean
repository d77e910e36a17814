import Workplane.Proofs.Capacity.Patched
import Workplane.Proofs.Deployments.Creation

/-!
# What a patch changes

A patch succeeds with certain moves and no others (`Service.Deployments.succeeds_patch_iff`).  What
comes out of it follows from the deployment that it was based on, field by field
(`Service.Deployments.Changed`); `Service.Deployments.patching_exact` says so of a patch on its own,
together with the checks that the very object that is written has passed.
-/

namespace Workplane

open Workspace (Config)

/-! ### The parts that a patch sets -/

namespace Patch

/-- The number of replicas that a patch sets. -/
def replicas? (p : Patch) : Option UInt32 :=
  p.requirement.bind fun r => if r.minReplicas > 0 then some r.minReplicas else none

/-- A patch that sets nothing. -/
structure IsEmpty (p : Patch) : Prop where
  photonId : p.photonId = ""
  image : p.image = ""
  replicas : p.replicas? = none
  shape : p.shape? = none
  apiTokens : p.apiTokens = none
  envs : p.envs = none
  mounts : p.mounts = none

variable {p : Patch}

/-- A text that is left empty sets nothing. -/
theorem ite_isEmpty_eq_none_iff {text : String} :
    (if text.isEmpty then none else some text) = none ↔ text = "" := by
  rw [← String.isEmpty_iff]
  split
  · rename_i h
    exact iff_of_true rfl h
  · rename_i h
    exact iff_of_false nofun h

theorem newPhotonId_eq_none_iff : p.newPhotonId = none ↔ p.photonId = "" :=
  ite_isEmpty_eq_none_iff

theorem newImage_eq_none_iff : p.newImage = none ↔ p.image = "" :=
  ite_isEmpty_eq_none_iff

/-- The requirement is left as it is exactly if neither replicas nor a shape are set. -/
theorem requirement_any_iff :
    p.requirement.any RequirementPatch.isEffective = false ↔
      p.replicas? = none ∧ p.shape? = none := by
  unfold replicas? shape? RequirementPatch.isEffective
  cases p.requirement with
  | none => exact iff_of_true rfl ⟨rfl, rfl⟩
  | some r =>
    by_cases hreplicas : r.minReplicas > 0 <;> by_cases hshape : r.shape = "" <;>
      simp [hreplicas, hshape]

theorem isEmpty_iff : p.IsEmpty ↔ p.isEffective = false ∧ p.newImage = none := by
  unfold isEffective
  simp only [Bool.or_eq_false_iff, Option.isSome_eq_false_iff, Option.isNone_iff_eq_none,
    newPhotonId_eq_none_iff, newImage_eq_none_iff, requirement_any_iff]
  constructor
  · rintro ⟨hphoton, himage, hreplicas, hshape, htokens, henvs, hmounts⟩
    exact ⟨⟨⟨⟨⟨hphoton, hreplicas, hshape⟩, htokens⟩, henvs⟩, hmounts⟩, himage⟩
  · rintro ⟨⟨⟨⟨⟨hphoton, hreplicas, hshape⟩, htokens⟩, henvs⟩, hmounts⟩, himage⟩
    exact ⟨hphoton, himage, hreplicas, hshape, htokens, henvs, hmounts⟩

end Patch

/-! ### Requirements after a patch -/

/-- A requirement after a patch, by what the patch sets. -/
structure Requirement.ChangedBy (p : Patch) (r r' : Requirement) : Prop where
  exclusive : r'.exclusive = r.exclusive
  minReplicas : r'.minReplicas = p.replicas?.or r.minReplicas
  /-- A shape takes the place of raw resources. -/
  shaped : ∀ shape, p.shape? = some shape → r'.shape = shape ∧ r'.cpu = 0 ∧ r'.memory = 0 ∧
    r'.acceleratorType = "" ∧ r'.accelerators = 0
  kept : p.shape? = none → r'.shape = r.shape ∧ r'.cpu = r.cpu ∧ r'.memory = r.memory ∧
    r'.acceleratorType = r.acceleratorType ∧ r'.accelerators = r.accelerators

/-- A patched requirement is changed in what the patch sets. -/
theorem Patch.changedBy_apply (p : Patch) (s : Deployment.Spec) :
    s.requirement.ChangedBy p (p.apply s).requirement := by
  unfold Patch.apply
  cases hp : p.requirement with
  | none =>
    have hreplicas : p.replicas? = none := by rw [replicas?, hp, Option.bind_none]
    have hshape : p.shape? = none := by rw [shape?, hp, Option.bind_none]
    constructor
    · rfl
    · rw [hreplicas, Option.none_or]
    · rw [hshape]
      exact nofun
    · exact fun _ => ⟨rfl, rfl, rfl, rfl, rfl⟩
  | some r =>
    have hreplicas : p.replicas? = if r.minReplicas > 0 then some r.minReplicas else none := by
      rw [replicas?, hp, Option.bind_some]
    have hshape : p.shape? = if r.shape.isEmpty then none else some r.shape := by
      rw [shape?, hp, Option.bind_some]
    unfold RequirementPatch.apply
    constructor
    · by_cases hn : r.minReplicas > 0 <;> by_cases hs : r.shape.isEmpty <;> simp [hn, hs]
    · by_cases hn : r.minReplicas > 0 <;> by_cases hs : r.shape.isEmpty <;>
        simp [hn, hs, hreplicas]
    · by_cases hn : r.minReplicas > 0 <;> by_cases hs : r.shape.isEmpty <;> simp [hn, hs, hshape]
    · by_cases hn : r.minReplicas > 0 <;> by_cases hs : r.shape.isEmpty <;> simp [hn, hs, hshape]

namespace Service.Deployments

variable {c : Config} {id : String} {p : Patch} {d : Deployment} {photon : Option Photon}
  {moves : List Move}

/-- A deployment after a patch, by what the patch sets. -/
structure Changed (c : Config) (p : Patch) (photon : Option Photon) (d d' : Deployment) : Prop where
  id : d'.id = d.id
  name : d'.spec.name = d.spec.name
  createdAt : d'.createdAt = d.createdAt
  system : { d'.system with image := d.system.image } = d.system
  endpoint : d'.status.endpoint = d.status.endpoint
  state : d'.status.state = .updating
  photonId : d'.spec.photonId = if p.photonId = "" then d.spec.photonId else p.photonId
  requirement : d.spec.requirement.ChangedBy p d'.spec.requirement
  apiTokens : d'.spec.apiTokens = p.apiTokens.or d.spec.apiTokens
  envs : d'.spec.envs = p.envs.or d.spec.envs
  mounts : d'.spec.mounts = p.mounts.or d.spec.mounts
  /-- The image of the patch comes before that of the photon. -/
  image : p.image ≠ "" → d'.system.image = c.placeImage p.image
  photonImage : p.image = "" → ∀ photon', photon = some photon' →
    d'.system.image = c.placeImage photon'.spec.image
  keptImage : p.image = "" → photon = none → d'.system.image = d.system.image

/-- A patched deployment is changed in what the patch names. -/
theorem changed_patched (c : Config) (p : Patch) (photon : Option Photon) (d : Deployment)
    (now : UInt64) : Changed c p photon d (patched c p photon d now) where
  id := rfl
  name := rfl
  createdAt := rfl
  system := rfl
  endpoint := rfl
  state := rfl
  photonId := by
    show p.newPhotonId.getD d.spec.photonId = _
    unfold Patch.newPhotonId
    simp only [String.isEmpty_iff]
    split <;> rfl
  requirement := p.changedBy_apply d.spec
  apiTokens := by cases h : p.apiTokens <;> simp [patched, Patch.apply, h]
  envs := by cases h : p.envs <;> simp [patched, Patch.apply, h]
  mounts := by cases h : p.mounts <;> simp [patched, Patch.apply, h]
  image h := by
    have hnew : p.newImage = some p.image := if_neg (mt String.isEmpty_iff.1 h)
    simp [patched, patchedImage, hnew]
  photonImage h photon' hphoton := by
    simp [patched, patchedImage, Patch.newImage_eq_none_iff.2 h, hphoton]
  keptImage h hphoton := by
    simp [patched, patchedImage, Patch.newImage_eq_none_iff.2 h, hphoton]

/-! ### The moves of a patch -/

/-- The moves that find the photon that a patch changes to, if it names one. -/
inductive FindsPhoton (c : Config) (p : Patch) (d : Deployment) : List Move → Option Photon → Prop
  | none (same : p.newPhotonId = none) : FindsPhoton c p d [] none
  | some (id : String) (photon : Photon) (m : Move) (other : p.newPhotonId = some id)
    (found : c.photons.Finds id photon m) (model : photon.spec.name = d.system.photonName) :
    FindsPhoton c p d [m] (some photon)

theorem FindsPhoton.reads (h : FindsPhoton c p d moves photon) : ∀ m ∈ moves, m.Reads := by
  cases h with
  | none same => exact nofun
  | some id photon m other found model => exact List.forall_mem_singleton.2 found.reads

/-- The photon of a patch is found with exactly the moves that the specification says. -/
theorem succeeds_newPhoton_iff :
    Succeeds (newPhoton c p d) moves photon ↔ FindsPhoton c p d moves photon := by
  unfold newPhoton
  constructor
  · intro h
    cases hid : p.newPhotonId with
    | none =>
      rw [hid] at h
      obtain ⟨rfl, rfl⟩ := succeeds_pure_iff.1 h
      exact .none hid
    | some id =>
      rw [hid] at h
      obtain ⟨photon', u, v, rfl, hresolve, hnext⟩ := succeeds_bind_iff.1 h
      obtain ⟨m, rfl, hfound⟩ := succeeds_resolvePhoton_iff.1 hresolve
      split at hnext
      · rename_i hmodel
        obtain ⟨rfl, rfl⟩ := succeeds_pure_iff.1 hnext
        exact .some id photon' m hid hfound hmodel
      · exact (not_succeeds_throw hnext).elim
  · rintro (same | ⟨id, photon', m, other, found, model⟩)
    · rw [same]
      exact succeeds_pure_iff.2 ⟨rfl, rfl⟩
    · rw [other]
      refine succeeds_bind_iff.2 ⟨photon', [m], [], rfl,
        succeeds_resolvePhoton_iff.2 ⟨m, rfl, found⟩, ?_⟩
      rw [if_pos model]
      exact succeeds_pure_iff.2 ⟨rfl, rfl⟩

/-- The moves with which a patch succeeds, and what it returns then. -/
inductive Patching (c : Config) (id : String) (p : Patch) : List Move → Deployment → Prop
  | intro (current : Move) (photonReads secrets : List Move) (quota write : Move) (e : Entry)
    (d : Deployment) (photon : Option Photon) (replaced requested : Resources) (now : Timestamp)
    (writable : c.state.isWritable = true)
    (looked : current.Looks (c.deployments.key id) (some e)) (decoded : Kind.decode? e.value = some d)
    (chosen : FindsPhoton c p d photonReads photon) (effective : ¬p.IsEmpty)
    (checked : (p.apply d.spec).validate = .ok ())
    (found : List.Forall₂ (FindsSecret c) (p.apply d.spec).secretRefs secrets)
    (before : d.spec.requirement.total = .ok replaced)
    (after : (p.apply d.spec).requirement.total = .ok requested)
    (admitted : AdmitsQuota c requested (some replaced) quota)
    (written : write.Wrote (c.deployments.key id) e.revision
      (Kind.encode (patched c p photon d now.millis))) :
    Patching c id p (current :: (photonReads ++ (secrets ++ [quota, .clock now, write])))
      (patched c p photon d now.millis)

/-- A patch succeeds with exactly the moves that the specification says. -/
theorem succeeds_patch_iff {d' : Deployment} :
    Succeeds (patch c id p) moves d' ↔ Patching c id p moves d' := by
  have heffective : (!p.isEffective && p.newImage.isNone) = true ↔ p.IsEmpty := by
    rw [Patch.isEmpty_iff, Bool.and_eq_true, Bool.not_eq_true', Option.isNone_iff_eq_none]
  constructor
  · intro h
    -- The steps of the service, each with the moves that it makes.
    obtain ⟨_, u₁, v₁, rfl, hensure, h₁⟩ := succeeds_bind_iff.1 h
    obtain ⟨rfl, hwritable⟩ := succeeds_ensureWritable_iff.1 hensure
    obtain ⟨⟨d, revision⟩, u₂, v₂, rfl, hget, h₂⟩ := succeeds_bind_iff.1 h₁
    obtain ⟨e, current, rfl, hlooked, hdecoded, hrevision⟩ :=
      Repository.succeeds_getVersioned_iff.1 (succeeds_ofStore_iff.1 hget)
    obtain ⟨photon, photonReads, v₃, rfl, hphoton, h₃⟩ := succeeds_bind_iff.1 h₂
    have hchosen := succeeds_newPhoton_iff.1 hphoton
    split at h₃
    · exact (not_succeeds_throw h₃).elim
    rename_i hnotEmpty
    obtain ⟨_, secrets, v₄, rfl, hspec, h₄⟩ := succeeds_bind_iff.1 h₃
    obtain ⟨hchecked, hfound⟩ := succeeds_checkSpec_iff.1 hspec
    obtain ⟨replaced, u₅, v₅, rfl, hold, h₅⟩ := succeeds_bind_iff.1 h₄
    obtain ⟨rfl, hbefore⟩ := succeeds_ofCheck_iff.1 hold
    obtain ⟨requested, u₆, v₆, rfl, hnew, h₆⟩ := succeeds_bind_iff.1 h₅
    obtain ⟨rfl, hafter⟩ := succeeds_ofCheck_iff.1 hnew
    obtain ⟨_, u₇, v₇, rfl, hquota, h₇⟩ := succeeds_bind_iff.1 h₆
    obtain ⟨quota, rfl, hadmitted⟩ := succeeds_checkQuota_iff.1 hquota
    obtain ⟨now, u₈, v₈, rfl, hnow, h₈⟩ := succeeds_bind_iff.1 h₇
    obtain rfl := succeeds_now_iff.1 hnow
    obtain ⟨written, u₉, v₉, rfl, hwrite, h₉⟩ := succeeds_bind_iff.1 h₈
    obtain ⟨took, rfl⟩ := Repository.succeeds_updateAt_iff.1 (succeeds_ofStore_iff.1 hwrite)
    obtain ⟨rfl, rfl⟩ := succeeds_pure_iff.1 h₉
    obtain rfl : revision = e.revision := hrevision
    exact .intro current photonReads secrets quota _ e d photon replaced requested now hwritable
      hlooked hdecoded hchosen (mt heffective.2 hnotEmpty) hchecked hfound hbefore hafter hadmitted
      ⟨written, took, rfl⟩
  · rintro ⟨current, photonReads, secrets, quota, write, e, d, photon, replaced, requested, now,
      hwritable, hlooked, hdecoded, hchosen, hnotEmpty, hchecked, hfound, hbefore, hafter,
      hadmitted, revision, took, rfl⟩
    -- The same steps, each with its part of the moves.
    refine succeeds_bind_iff.2 ⟨(), [], _, rfl, succeeds_ensureWritable_iff.2 ⟨rfl, hwritable⟩, ?_⟩
    refine succeeds_bind_iff.2 ⟨⟨d, e.revision⟩, [current], _, rfl, succeeds_ofStore_iff.2
      (Repository.succeeds_getVersioned_iff.2 ⟨e, current, rfl, hlooked, hdecoded, rfl⟩), ?_⟩
    refine succeeds_bind_iff.2
      ⟨photon, photonReads, _, rfl, succeeds_newPhoton_iff.2 hchosen, ?_⟩
    rw [if_neg (mt heffective.1 hnotEmpty)]
    refine succeeds_bind_iff.2
      ⟨(), secrets, _, rfl, succeeds_checkSpec_iff.2 ⟨hchecked, hfound⟩, ?_⟩
    refine succeeds_bind_iff.2 ⟨replaced, [], _, rfl, succeeds_ofCheck_iff.2 ⟨rfl, hbefore⟩, ?_⟩
    refine succeeds_bind_iff.2 ⟨requested, [], _, rfl, succeeds_ofCheck_iff.2 ⟨rfl, hafter⟩, ?_⟩
    refine succeeds_bind_iff.2
      ⟨(), [quota], _, rfl, succeeds_checkQuota_iff.2 ⟨quota, rfl, hadmitted⟩, ?_⟩
    refine succeeds_bind_iff.2 ⟨now, [.clock now], _, rfl, succeeds_now_iff.2 rfl, ?_⟩
    refine succeeds_bind_iff.2 ⟨revision, [_], [], rfl, succeeds_ofStore_iff.2 ?_,
      succeeds_pure_iff.2 ⟨rfl, rfl⟩⟩
    exact Repository.succeeds_updateAt_iff.2 ⟨took, rfl⟩

/-! ### A patch on its own -/

/-- The photon that a patch names is stored and a build of the same model; without a name there is
none. -/
inductive Names (c : Config) (s : KeyStore) (p : Patch) (d : Deployment) : Option Photon → Prop
  | none (same : p.photonId = "") : Names c s p d none
  | some (photon : Photon) (other : p.photonId ≠ "")
    (stored : c.photons.Stored s p.photonId photon)
    (model : photon.spec.name = d.system.photonName) : Names c s p d (some photon)

/-- A deployment that takes the place of another one passes all checks at a store. -/
structure Passes (c : Config) (s : KeyStore) (d d' : Deployment) : Prop where
  requirement : d'.spec.requirement.validate = .ok ()
  envs : ∀ e ∈ d'.spec.envs.getD [], e.validate = .ok ()
  mounts : ∀ m ∈ d'.spec.mounts.getD [], m.validate = .ok ()
  secrets : ∀ name ∈ d'.spec.secretRefs, ∃ v, c.secrets.Stored s name v
  quota : ∃ replaced requested, d.spec.requirement.total = .ok replaced ∧
    d'.spec.requirement.total = .ok requested ∧
    (s.get? (c.quotas.key c.name) = none ∨ ∃ q, c.quotas.Stored s c.name q ∧
      Quota.admits (some q) requested (some replaced) = true)

variable {α : Type} {q q' : Program α} {b b' : Backend} {past : List Move}

/-- The photon that was found is the stored one where only reads came between. -/
theorem FindsPhoton.names (h : FindsPhoton c p d moves photon) (run : q.Alone b past b' q')
    (hreads : ∀ m ∈ past, m.Reads) (hsub : moves ⊆ past) : Names c b.keys p d photon := by
  cases h with
  | none same => exact .none (Patch.newPhotonId_eq_none_iff.1 same)
  | some id photon m other found model =>
    unfold Patch.newPhotonId at other
    split at other
    · exact nomatch other
    · rename_i hnonempty
      obtain rfl := Option.some.inj other
      exact .some photon (mt String.isEmpty_iff.2 hnonempty)
        (found.stored run hreads (hsub (.head []))) model

/-- What a patch on its own has changed, whatever calls have failed. -/
theorem Patching.alone {d' : Deployment} (h : Patching c id p past d') (run : q.Alone b past b' q') :
    ∃ d photon, c.deployments.Stored b.keys id d ∧ Names c b.keys p d photon ∧
      Changed c p photon d d' ∧ Passes c b.keys d d' ∧
      b' = { b with keys := b.keys.write (c.deployments.key id) (Kind.encode d') } := by
  obtain ⟨current, photonReads, secrets, quota, write, e, d, photon, replaced, requested, now,
    hwritable, hlooked, hdecoded, hchosen, hnotEmpty, hchecked, hfound, hbefore, hafter,
    hadmitted, hwritten⟩ := h
  have hpast : current :: (photonReads ++ (secrets ++ [quota, .clock now, write])) =
      (current :: (photonReads ++ secrets ++ [quota, .clock now])) ++ [write] := by simp
  -- All moves before the last only read, so the write finds the store as it was at first.
  rw [hpast] at run
  obtain ⟨b₁, q₁, hfirst, -, hwrite, rfl⟩ := run.of_concat
  have hreads : ∀ m ∈ current :: (photonReads ++ secrets ++ [quota, .clock now]), m.Reads := by
    simp only [List.forall_mem_cons, List.forall_mem_append]
    exact ⟨hlooked.reads, ⟨hchosen.reads, reads_of_forall₂ hfound⟩, hadmitted.reads,
      Move.reads_clock now, nofun⟩
  obtain rfl := hfirst.eq_of_reads hreads
  have hfind : c.deployments.Finds id d current := ⟨e, hlooked, hdecoded⟩
  obtain ⟨hrequirement, henvs, hmounts⟩ := Deployment.Spec.validate_eq_ok_iff.1 hchecked
  refine ⟨d, photon, hfind.stored hfirst hreads (.head _),
    hchosen.names hfirst hreads fun m hm => by simp [hm], changed_patched c p photon d now.millis, ?_,
    (hwritten.effect hwrite).2⟩
  exact {
    requirement := hrequirement
    envs := henvs
    mounts := hmounts
    secrets := stored_of_forall₂ hfirst hreads (fun m hm => by simp [hm]) hfound
    quota := ⟨replaced, requested, hbefore, hafter,
      quota_of_admitsQuota hfirst hreads (by simp) hadmitted⟩ }

/-! ### The main result -/

/-- A deployment that is stored has finite quantities. -/
theorem inRange_of_stored {s : KeyStore} {d : Deployment} (h : c.deployments.Stored s id d) :
    d.spec.requirement.InRange :=
  h.storable.inRange

/-- The requirement that a patch leaves can be written and read. -/
theorem Changed.inRange {d d' : Deployment} (h : Changed c p photon d d')
    (hd : d.spec.requirement.InRange) : d'.spec.requirement.InRange := by
  have hzero : (0 : Float).isFinite = true := by decide +kernel
  cases hshape : p.shape? with
  | none =>
    obtain ⟨-, hcpu, -, -, haccelerators⟩ := h.requirement.kept hshape
    exact ⟨hcpu ▸ hd.cpu, haccelerators ▸ hd.accelerators⟩
  | some shape =>
    obtain ⟨-, hcpu, -, -, haccelerators⟩ := h.requirement.shaped shape hshape
    exact ⟨hcpu ▸ hzero, haccelerators ▸ hzero⟩

/-- Whatever it is told, a patch succeeds with the moves of `Patching` and no others; one that sets
nothing never succeeds.  On its own, and whatever calls fail, a patch that succeeds has changed the
deployment that was stored exactly in what it sets, has written the result under the same key and
nothing else, and that result has passed all checks.  What is written is found again; it is the
returned deployment exactly if the doubles of its requirement survive being written and read. -/
theorem patching_exact (c : Config) (id : String) (p : Patch) :
    (∀ moves d', Succeeds (patch c id p) moves d' ↔ Patching c id p moves d') ∧
    (p.IsEmpty → ∀ moves d', ¬Succeeds (patch c id p) moves d') ∧
    ∀ b past b' d', (patch c id p).run.Alone b past b' (.done (.ok d')) →
      ∃ d photon, c.deployments.Stored b.keys id d ∧ Names c b.keys p d photon ∧
        Changed c p photon d d' ∧ Passes c b.keys d d' ∧
        b' = { b with keys := b.keys.write (c.deployments.key id) (Kind.encode d') } ∧
        c.deployments.Stored b'.keys id d'.reread ∧
        (d'.reread = d' ↔
          Double.reread d'.spec.requirement.cpu = d'.spec.requirement.cpu ∧
          Double.reread d'.spec.requirement.accelerators = d'.spec.requirement.accelerators) := by
  refine ⟨fun _ _ => succeeds_patch_iff, fun hempty moves d' h => ?_, fun b past b' d' run => ?_⟩
  · obtain ⟨current, photonReads, secrets, quota, write, e, d, photon, replaced, requested, now,
      hwritable, hlooked, hdecoded, hchosen, hnotEmpty, -⟩ := succeeds_patch_iff.1 h
    exact hnotEmpty hempty
  · obtain ⟨d, photon, hstored, hnames, hchanged, hpasses, rfl⟩ :=
      (succeeds_patch_iff.1 run.ends).alone run
    have hstorable : Kind.Storable d' :=
      Deployment.storable (hchanged.inRange (inRange_of_stored hstored))
    exact ⟨d, photon, hstored, hnames, hchanged, hpasses, rfl,
      (Repository.stored_write hstorable).2 (if_pos rfl ▸ rfl), d'.reread_eq_iff⟩

/-- A deployment is patched whose processor share is read back as another double. -/
theorem patching_exact_largeCpu :
    let c : Config := { scope := "ns", name := "w", state := .normal }
    let p : Patch := ⟨"", "", some ⟨2, ""⟩, none, none, none⟩
    ∃ b past b' d d', (patch c "d" p).run.Alone b past b' (.done (.ok d')) ∧
      c.deployments.Stored b.keys "d" d ∧ Changed c p none d d' ∧
      c.deployments.Stored b'.keys "d" d'.reread ∧ d'.reread ≠ d' := by
  intro c p
  let now : Timestamp := ⟨1970, 1, 1, 0, 0, 0, 0⟩
  let spec : Deployment.Spec :=
    ⟨"d", "m-0", { cpu := 8.314568688035392e145, memory := 1, minReplicas := some 1 }, none, none,
      none⟩
  let photon : Photon := ⟨"m-0", ⟨"m", "", "i", [], [], none, none, []⟩, 0⟩
  let d := start c spec photon 0
  let s := KeyStore.empty.write (c.deployments.key "d") (Kind.encode d)
  have hrange : spec.requirement.InRange := ⟨by decide +kernel, by decide +kernel⟩
  have hstorable : Kind.Storable d := Deployment.storable hrange
  have hstored : c.deployments.Stored s "d" d.reread :=
    (Repository.stored_write hstorable).2 (if_pos rfl ▸ rfl)
  have habsent : s.get? (c.quotas.key c.name) = none := KeyStore.get?_write_of_ne (by decide) _ _
  have hchecked : (p.apply d.reread.spec).validate = .ok () :=
    Deployment.Spec.validate_eq_ok_iff.2 ⟨by decide +kernel, nofun, nofun⟩
  obtain ⟨before, hbefore⟩ : ∃ t, d.reread.spec.requirement.total = .ok t :=
    isOk_iff_exists.1 (by decide +kernel)
  obtain ⟨after, hafter⟩ : ∃ t, (p.apply d.reread.spec).requirement.total = .ok t :=
    isOk_iff_exists.1 (by decide +kernel)
  obtain ⟨past, run⟩ := Program.exists_alone_undisturbed (patch c "d" p).run now ⟨s, .empty⟩
  rw [undisturbed_patch rfl hstored rfl (by decide) hchecked nofun hbefore hafter
    (undisturbed_checkQuota_of_absent habsent _ _ now)] at run
  obtain ⟨-, -, halone⟩ := patching_exact c "d" p
  obtain ⟨d₁, photon₁, hstored₁, hnames, hchanged, -, -, hfound, hsame⟩ := halone _ _ _ _ run
  obtain rfl := hstored.eq hstored₁
  cases hnames with
  | some _ other => exact absurd rfl other
  | none =>
    refine ⟨_, past, _, _, _, run, hstored, hchanged, hfound, fun h => ?_⟩
    exact absurd (hsame.1 h).1 (by decide +kernel)

end Service.Deployments

end Workplane
