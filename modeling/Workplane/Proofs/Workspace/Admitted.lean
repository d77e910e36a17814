import Workplane.Proofs.Capacity.Admission
import Workplane.Proofs.Http.Undisturbed
import Workplane.Proofs.Decimal.Signs
import Workplane.Proofs.Program.Alone
import Workplane.Proofs.Storage.Restore

/-!
# Every stored deployment was admitted

Requests are handled one after another on a store that was empty at first (`Workspace.Served`).  A
deployment is written by its creation, after all checks, and by patches; a patch starts from a stored
deployment and makes the checks of a specification again, so what it writes is what a creation could
have written (`Workspace.Admitted`), except that the state is another one.
-/

namespace Workplane

variable {b b' : Backend} {past : List Move} {rest : Program Http.Response}

/-! ### Requirements that are read back -/

namespace Requirement

variable {r : Requirement}

/-- Rereading keeps the sign of a double. -/
theorem sign_reread {x : Float} (h : x.isFinite = true) :
    (0 < Double.reread x ↔ 0 < x) ∧ (Double.reread x < 0 ↔ x < 0) :=
  Decimal.sign_toFloat?_numeral h (Double.toFloat?_numeral h)

/-- Rereading keeps whether raw quantities are asked for. -/
theorem hasRaw_reread (hr : r.InRange) : r.reread.hasRaw = r.hasRaw := by
  have hcpu : decide (Double.reread r.cpu > 0) = decide (r.cpu > 0) :=
    decide_eq_decide.2 (sign_reread hr.cpu).1
  show (decide (Double.reread r.cpu > 0) && _) = _
  rw [hcpu]
  rfl

/-- A valid requirement that is read back passes all checks but that of the total, since its numbers
keep their signs. -/
theorem validate_reread (hr : r.InRange) (h : r.validate = .ok ()) :
    r.reread.validate = r.reread.total.map fun _ => () := by
  have hcpu : decide (Double.reread r.cpu < 0) = decide (r.cpu < 0) :=
    decide_eq_decide.2 (sign_reread hr.cpu).2
  have haccelerators : decide (Double.reread r.accelerators < 0) = decide (r.accelerators < 0) :=
    decide_eq_decide.2 (sign_reread hr.accelerators).2
  have hnegative : (decide (r.reread.cpu < 0) || decide (r.reread.memory < 0) ||
      decide (r.reread.accelerators < 0)) =
        (decide (r.cpu < 0) || decide (r.memory < 0) || decide (r.accelerators < 0)) := by
    show (decide (Double.reread r.cpu < 0) || _ || decide (Double.reread r.accelerators < 0)) = _
    rw [hcpu, haccelerators]
    rfl
  have hhasShape : r.reread.hasShape = r.hasShape := rfl
  have hshape : r.reread.shape = r.shape := rfl
  have hreplicas : r.reread.minReplicas = r.minReplicas := rfl
  unfold validate at h ⊢
  rw [hnegative, hasRaw_reread hr, hhasShape, hshape, hreplicas]
  iterate 5
    split at h
    · exact nomatch h
    rename_i hcheck
    rw [if_neg hcheck]

/-- The resources of a shape do not depend on the numbers that are read back. -/
theorem validate_reread_of_hasShape (hr : r.InRange) (h : r.validate = .ok ())
    (hshape : r.hasShape = true) : r.reread.validate = .ok () := by
  have htotal : r.reread.total = r.total := by
    unfold total perReplica
    rw [show r.reread.hasShape = r.hasShape from rfl, hshape]
    rfl
  obtain ⟨t, ht⟩ := exists_total_of_validate h
  rw [validate_reread hr h, htotal, ht]
  rfl

end Requirement

namespace Workspace

open Http Service Writer

variable {c : Config} {id requestId : String} {r : Request} {d : Deployment}

/-! ### Admitted deployments -/

/-- A deployment under an identifier is one that can be created, and has been patched since at
most. -/
structure Admitted (c : Config) (id : String) (d : Deployment) : Prop where
  id_eq : d.id = id
  name_eq : Name.deploymentId d.spec.name = id
  named : Name.validate d.spec.name = .ok ()
  /-- The requirement was valid when it was written; the numbers may have changed since, as they were
  read back. -/
  written : ∃ r : Requirement, r.InRange ∧ r.validate = .ok () ∧ d.spec.requirement = r.reread
  /-- The requirement is valid unless the total of its replicas is now too large. -/
  requirement : d.spec.requirement.validate = d.spec.requirement.total.map fun _ => ()
  shape : d.spec.requirement.hasShape = true → d.spec.requirement.validate = .ok ()
  envs : ∀ e ∈ d.spec.envs.getD [], e.validate = .ok ()
  mounts : ∀ m ∈ d.spec.mounts.getD [], m.validate = .ok ()
  state : d.status.state = .starting ∨ d.status.state = .updating
  endpoint : d.status.endpoint = c.endpoint id
  bucketPath : d.system.bucketPath = c.bucketPath id
  efsPath : d.system.efsPath = c.efsPath
  rootDomain : d.system.rootDomain = c.rootDomain
  workspaceToken : d.system.workspaceToken = c.token
  certificateArn : d.system.certificateArn = c.certificateArn

/-- Every entry of the deployments holds an admitted one under its own identifier. -/
def Admits (c : Config) (s : KeyStore) : Prop :=
  ∀ id e, s.get? (c.deployments.key id) = some e →
    ∃ d : Deployment, Kind.decode? e.value = some d ∧ Admitted c id d

/-- A deployment that is created is admitted as it will be read. -/
theorem admitted_start {spec : Deployment.Spec} (hrange : spec.requirement.InRange)
    (named : Name.validate spec.name = .ok ()) (checked : spec.validate = .ok ())
    (photon : Photon) (now : UInt64) :
    Admitted c (Name.deploymentId spec.name) (Deployments.start c spec photon now).reread := by
  obtain ⟨hrequirement, henvs, hmounts⟩ := Deployment.Spec.validate_eq_ok_iff.1 checked
  have hshape := Requirement.validate_reread_of_hasShape hrange hrequirement
  exact ⟨rfl, rfl, named, ⟨_, hrange, hrequirement, rfl⟩,
    Requirement.validate_reread hrange hrequirement, hshape, henvs, hmounts, Or.inl rfl, rfl,
    rfl, rfl, rfl, rfl, rfl⟩

/-- A deployment that is patched is admitted as it will be read, if the check has passed. -/
theorem Admitted.patched (h : Admitted c id d) (hrange : d.spec.requirement.InRange) {p : Patch}
    (checked : (p.apply d.spec).validate = .ok ()) (photon : Option Photon) (now : UInt64) :
    Admitted c id (Deployments.patched c p photon d now).reread := by
  obtain ⟨hrequirement, henvs, hmounts⟩ := Deployment.Spec.validate_eq_ok_iff.1 checked
  have hrange' := p.inRange_apply hrange
  have hshape := Requirement.validate_reread_of_hasShape hrange' hrequirement
  exact ⟨h.id_eq, h.name_eq, h.named, ⟨_, hrange', hrequirement, rfl⟩,
    Requirement.validate_reread hrange' hrequirement, hshape, henvs, hmounts, Or.inr rfl,
    h.endpoint, h.bucketPath, h.efsPath, h.rootDomain, h.workspaceToken, h.certificateArn⟩

/-! ### Changes -/

/-- An admitted deployment may be stored. -/
theorem Admits.write {s : KeyStore} (h : Admits c s) (hd : Kind.Storable d)
    (hadmitted : Admitted c id d.reread) :
    Admits c (s.write (c.deployments.key id) (Kind.encode d)) := by
  refine Repository.forall_write h ⟨d.reread, ?_, hadmitted⟩
  dsimp only
  exact hd.decode?_encode

theorem Admits.of_agrees {s s' : KeyStore} (h : Admits c s) (hagrees : c.deployments.Agrees s s') :
    Admits c s' :=
  fun id e he => h id e (hagrees id ▸ he)

theorem Admits.delete {s : KeyStore} (h : Admits c s) (key : String) :
    Admits c (s.delete key).2 :=
  Repository.forall_delete h key

/-- What a request has read of the deployments was admitted. -/
def SawAdmitted (c : Config) (past : List Move) : Prop :=
  ∀ id e, Saw past (c.deployments.key id) e →
    ∃ d : Deployment, Kind.decode? e.value = some d ∧ Admitted c id d

/-- A write that a request asks for leaves all deployments admitted. -/
theorem Admits.write_of_asks {s : KeyStore} (h : Admits c s) (hsaw : SawAdmitted c past)
    {body : ByteArray} {method : Method} {resource : Resource} {key : String} {expected : UInt64}
    {value : ByteArray} {response : Response}
    (hasks : Asks c body past method resource (.swap key expected value) response) :
    Admits c (s.write key value) := by
  cases hasks with
  | createPhoton spec now => exact h.of_agrees ((photons_apart_deployments c).agrees_write _ _)
  | putSecret secrets v => exact h.of_agrees ((secrets_apart_deployments c).agrees_write _ _)
  | createDeployment spec photon now read named checked looked =>
    obtain ⟨j, hj, hspec⟩ := Option.bind_eq_some_iff.1 read
    have hrange := Deployment.Spec.inRange_of_reader (Json.inRange_of_ofBytes? hj) hspec
    have hstorable : Kind.Storable (Deployments.start c spec photon now.millis) :=
      Deployment.storable hrange
    exact h.write hstorable (admitted_start hrange named checked photon now.millis)
  | patchDeployment raw id p e d photon now spelled read saw decoded checked looked =>
    obtain ⟨d', hd', hadmitted⟩ := hsaw id e saw
    obtain rfl := Option.some.inj (decoded.symm.trans hd')
    have hrange : d.spec.requirement.InRange := (Kind.storable_of_decode? decoded).inRange
    have hstorable : Kind.Storable (Deployments.patched c p photon d now.millis) :=
      Deployment.storable (p.inRange_apply hrange)
    exact h.write hstorable (hadmitted.patched hrange checked photon now.millis)

/-- A move of a request leaves all deployments admitted. -/
theorem Admits.after (h : Admits c b.keys) (hsaw : SawAdmitted c past) {m : Move}
    (hm : m.IsTrue b) (hpermits : r.Permits c past m.request) : Admits c (m.after b).keys := by
  cases hm.effect with
  | quiet _ keys _ => exact keys ▸ h
  | wrote key expected value request _ _ keys =>
    rcases hpermits _ request with hread | ⟨-, resource, response, -, hasks⟩
    · exact hread.elim
    · exact keys ▸ h.write_of_asks hsaw hasks
  | removed key _ _ _ keys => exact keys ▸ h.delete key

/-- While a request is handled, all deployments are admitted, and so are those that it reads. -/
theorem Admits.alone (h : Admits c b.keys)
    (run : (Api.handle c requestId r).Alone b past b' rest) :
    Admits c b'.keys ∧ SawAdmitted c past := by
  induction run with
  | start => exact ⟨h, fun id e hsaw => absurd hsaw.choose_spec List.not_mem_nil⟩
  | @move past b' q run m q' step true_move ih =>
    have hpermits := (run.holds (holds_handle_asks c requestId r)).1.permits step
    refine ⟨ih.1.after ih.2 true_move hpermits, ?_⟩
    rintro id e ⟨took, hmem⟩
    rcases List.mem_append.1 hmem with hmem | hmem
    · exact ih.2 id e ⟨took, hmem⟩
    · obtain rfl := List.mem_singleton.1 hmem
      exact ih.1 id e (true_move _ rfl).symm

/-! ### Requests one after another -/

/-- The states of a workspace that handles one request after another, on a store that was empty at
first.  The last one may still be under way, and any may have been broken off. -/
inductive Served (c : Config) : Backend → Prop
  | empty : Served c .empty
  | request {b b' : Backend} (served : Served c b) (id : String) (r : Request) (past : List Move)
    (rest : Program Response) (run : (Api.handle c id r).Alone b past b' rest) : Served c b'

/-- A workspace stays served while requests are handled one after another. -/
theorem Served.undisturbed (h : Served c b) (now : Timestamp) (rs : List Request) :
    Served c (rs.foldl (fun b r => ((Api.handle c "1" r).undisturbed now b).2) b) := by
  induction rs generalizing b with
  | nil => exact h
  | cons r rs ih =>
    exact ih (h.request "1" r _ _ (Program.Alone.start.undisturbed now))

/-- In a served workspace every stored deployment is admitted. -/
theorem Served.admits (h : Served c b) : Admits c b.keys := by
  induction h with
  | empty => exact fun id e he => nomatch he
  | request served id r past rest run ih => exact (ih.alone run).1

/-! ### The listing -/

/-- The deployments of a store in the order of their identifiers. -/
def inOrder (c : Config) (s : KeyStore) : List Deployment :=
  (c.deployments.listed s).mergeSort fun d e => decide (d.id ≤ e.id)

theorem Admits.isClean {s : KeyStore} (h : Admits c s) : c.deployments.IsClean s := by
  intro id e he
  obtain ⟨d, hd, hadmitted⟩ := h id e he
  exact ⟨d, hd, hadmitted.id_eq⟩

/-- The listing has what is stored, and nothing else. -/
theorem mem_inOrder {s : KeyStore} : d ∈ inOrder c s ↔ ∃ id, c.deployments.Stored s id d :=
  List.mem_mergeSort.trans Repository.mem_listed

/-- No identifier is listed twice. -/
theorem pairwise_inOrder {s : KeyStore} (h : c.deployments.IsClean s) :
    (inOrder c s).Pairwise fun d e => d.id < e.id := by
  have htrans (d e f : Deployment) (h : decide (d.id ≤ e.id) = true)
      (h' : decide (e.id ≤ f.id) = true) : decide (d.id ≤ f.id) = true :=
    decide_eq_true (String.le_trans (of_decide_eq_true h) (of_decide_eq_true h'))
  have htotal (d e : Deployment) : (decide (d.id ≤ e.id) || decide (e.id ≤ d.id)) = true := by
    rw [Bool.or_eq_true, decide_eq_true_eq, decide_eq_true_eq]
    exact String.le_total d.id e.id
  have hnodup : (inOrder c s).Pairwise fun d e => d.id ≠ e.id :=
    List.pairwise_map.1 (((List.mergeSort_perm _ _).map _).nodup_iff.2 h.nodup_listed)
  refine ((List.pairwise_mergeSort htrans htotal _).and hnodup).imp fun ⟨hle, hne⟩ => ?_
  by_contra hlt
  exact hne (String.le_antisymm (of_decide_eq_true hle) (String.not_lt.1 hlt))

/-- The request wants the deployments. -/
def ListsDeployments (r : Request) : Prop :=
  r.method = .get ∧ Resource.ofTarget r.target = some .deployments

theorem ListsDeployments.handle_eq (hr : ListsDeployments r) :
    Api.handle c requestId r = Api.respond requestId
      (do return Api.listed Deployment.toJson (← Deployments.list c)) := by
  unfold Api.handle
  rw [hr.2]
  unfold Api.perform
  rw [hr.1]
  rfl

/-- A listing that nothing disturbs shows the deployments in order. -/
theorem ListsDeployments.undisturbed (hr : ListsDeployments r) (now : Timestamp) :
    (Api.handle c requestId r).undisturbed now b =
      (Api.listed Deployment.toJson (inOrder c b.keys), b) := by
  rw [hr.handle_eq]
  rfl

/-- A listing that succeeds shows what its only call has shown. -/
theorem ListsDeployments.holds (hr : ListsDeployments r) :
    (Api.handle c requestId r).Holds (.history fun _ _ => True)
      (fun response past => response.isSuccess = true → ∃ entries took,
        past = [.call (.list c.deployments.root) ⟨.answered entries, took⟩] ∧
          response = Api.listed Deployment.toJson ((entries.filterMap fun e =>
            Kind.decode? e.value).mergeSort fun d e => decide (d.id ≤ e.id))) [] := by
  rw [hr.handle_eq]
  have hlist : Ensures (.history fun _ _ => True)
      (fun response past => ∃ entries took,
        past = [.call (.list c.deployments.root) ⟨.answered entries, took⟩] ∧
          response = Api.listed Deployment.toJson ((entries.filterMap fun e =>
            Kind.decode? e.value).mergeSort fun d e => decide (d.id ≤ e.id)))
      (fun _ _ => True) (do return Api.listed Deployment.toJson (← Deployments.list c)) [] := by
    refine ensures_bind.2 (ensures_bind.2 (ensures_ofStore.2 (Repository.ensures_list trivial ?_
      fun _ _ _ _ _ _ => trivial)))
    rintro entries took _ rfl
    exact ensures_pure.2 (ensures_pure.2 ⟨entries, took, rfl, rfl⟩)
  refine Program.holds_bind.2 (Program.Holds.mono hlist fun result past h => ?_)
  cases result with
  | ok response => exact fun _ => h
  | error e =>
    intro hsuccess
    rw [isSuccess_refused] at hsuccess
    exact nomatch hsuccess

/-- A listing that succeeds shows the stored deployments in order. -/
theorem ListsDeployments.eq_listed (hr : ListsDeployments r) {response : Response}
    (run : (Api.handle c requestId r).Alone b past b' (.done response))
    (hsuccess : response.isSuccess = true) :
    response = Api.listed Deployment.toJson (inOrder c b.keys) := by
  obtain ⟨entries, took, rfl, rfl⟩ := (run.holds hr.holds).1 hsuccess
  rw [← List.nil_append [_]] at run
  obtain ⟨b₁, q₁, hfirst, -, hm, -⟩ := run.of_concat
  obtain rfl : b₁ = b := hfirst.eq_of_unchanged nofun nofun
  rw [show entries = b₁.keys.list c.deployments.root from hm entries rfl]
  rfl

/-! ### The main result -/

/-- Whatever requests were handled, each entry of a deployment holds an admitted one, and the
listing shows every one of them once, in the order of the identifiers. -/
theorem Served.admitted (h : Served c b) :
    (∀ id e, b.keys.get? (c.deployments.key id) = some e →
      ∃ d : Deployment, Kind.decode? e.value = some d ∧ Admitted c id d) ∧
    ∃ ds : List Deployment, (ds.Pairwise fun d e => d.id < e.id) ∧
      (∀ d, d ∈ ds ↔ ∃ id, c.deployments.Stored b.keys id d) ∧
      ∀ requestId r, ListsDeployments r →
        (∀ now, (Api.handle c requestId r).undisturbed now b =
          (Api.listed Deployment.toJson ds, b)) ∧
        ∀ past b' response, (Api.handle c requestId r).Alone b past b' (.done response) →
          response.isSuccess = true → response = Api.listed Deployment.toJson ds :=
  ⟨h.admits, inOrder c b.keys, pairwise_inOrder h.admits.isClean, fun _ => mem_inOrder,
    fun _ _ hr => ⟨hr.undisturbed, fun _ _ _ run => hr.eq_listed run⟩⟩

/-- A photon is registered, and a deployment of it under a name that is not in lower case. -/
def firstRequests : List Request :=
  [⟨.post, "/api/v1/photons", "\x7b\"name\":\"m\",\"image\":\"i\"\x7d".toUTF8⟩,
    ⟨.post, "/api/v1/deployments",
      ("\x7b\"name\":\"D\",\"photon_id\":\"m-9d3d52e5\"," ++
        "\"resource_requirement\":\x7b\"cpu\":1,\"memory\":1,\"min_replicas\":1\x7d\x7d").toUTF8⟩,
    ⟨.patch, "/api/v1/deployments/d",
      "\x7b\"resource_requirement\":\x7b\"min_replicas\":2\x7d\x7d".toUTF8⟩]

/-- The workspace that they are sent to. -/
def firstConfig : Config := { scope := "ns", name := "w", state := .normal }

/-- The moment at which they are sent. -/
def firstMoment : Timestamp := ⟨1970, 1, 1, 0, 0, 0, 0⟩

/-- What the bodies of the first requests hold, as far as it decides on their success. -/
structure FirstBodies (photon : Photon.Spec) (spec : Deployment.Spec) (p : Patch) : Prop where
  readPhoton : HasBody firstRequests[0].body Photon.Spec.reader photon
  photonNamed : Name.validate photon.name = .ok ()
  photonImage : photon.image.isEmpty = false
  photonId : Photon.idOf photon = "m-9d3d52e5"
  readSpec : HasBody firstRequests[1].body Deployment.Spec.reader spec
  specNamed : Name.validate spec.name = .ok ()
  specChecked : spec.validate = .ok ()
  specRefs : spec.secretRefs = []
  specPhoton : spec.photonId = "m-9d3d52e5"
  specId : Name.deploymentId spec.name = "d"
  specTotal : ∃ t, spec.requirement.total = .ok t
  storedTotal : ∃ t, spec.requirement.reread.total = .ok t
  readPatch : HasBody firstRequests[2].body Patch.reader p
  patchEffective : p.isEffective = true
  patchPhoton : p.newPhotonId = none
  patchedChecked : (p.apply { spec with requirement := spec.requirement.reread }).validate = .ok ()
  patchedRefs : (p.apply { spec with requirement := spec.requirement.reread }).secretRefs = []
  patchedTotal : ∃ t,
    (p.apply { spec with requirement := spec.requirement.reread }).requirement.total = .ok t

/-- The bodies of the first requests are as they should be. -/
theorem exists_firstBodies : ∃ photon spec p, FirstBodies photon spec p := by
  -- What the bodies hold is evaluated; what becomes of it in the store is not.
  have hphoton : (((Json.ofBytes? firstRequests[0].body).bind Photon.Spec.reader.run).any fun s =>
      (Name.validate s.name).isOk && !s.image.isEmpty && Photon.idOf s == "m-9d3d52e5") = true := by
    decide +kernel
  have hdeployment : (((Json.ofBytes? firstRequests[1].body).bind Deployment.Spec.reader.run).any
      fun s => (Name.validate s.name).isOk && s.validate.isOk && s.secretRefs.isEmpty &&
        s.photonId == "m-9d3d52e5" && Name.deploymentId s.name == "d" && s.requirement.total.isOk &&
        s.requirement.reread.total.isOk &&
        ((Json.ofBytes? firstRequests[2].body).bind Patch.reader.run).any fun p =>
          let after := p.apply { s with requirement := s.requirement.reread }
          p.isEffective && p.newPhotonId.isNone && after.validate.isOk && after.secretRefs.isEmpty &&
            after.requirement.total.isOk) = true := by
    decide +kernel
  obtain ⟨photon, readPhoton, hphoton⟩ := (Option.any_eq_true _ _).1 hphoton
  obtain ⟨spec, readSpec, hspec⟩ := (Option.any_eq_true _ _).1 hdeployment
  simp only [Bool.and_eq_true, Bool.not_eq_true', beq_iff_eq, List.isEmpty_iff,
    Option.any_eq_true, Option.isNone_iff_eq_none, isOk_iff_exists] at hphoton hspec
  obtain ⟨⟨⟨⟨⟩, photonNamed⟩, photonImage⟩, photonId⟩ := hphoton
  obtain ⟨⟨⟨⟨⟨⟨⟨⟨⟨⟩, specNamed⟩, ⟨⟨⟩, specChecked⟩⟩, specRefs⟩, specPhoton⟩, specId⟩, specTotal⟩,
    storedTotal⟩, p, readPatch, ⟨⟨⟨patchEffective, patchPhoton⟩, ⟨⟨⟩, patchedChecked⟩⟩,
    patchedRefs⟩, patchedTotal⟩ := hspec
  exact ⟨photon, spec, p, readPhoton, photonNamed, photonImage, photonId, readSpec, specNamed,
    specChecked, specRefs, specPhoton, specId, specTotal, storedTotal, readPatch, patchEffective,
    patchPhoton, patchedChecked, patchedRefs, patchedTotal⟩

namespace FirstBodies

/-- The keys after the photon was registered. -/
def registered (photon : Photon.Spec) : KeyStore :=
  KeyStore.empty.write (firstConfig.photons.key "m-9d3d52e5")
    (Kind.encode (Photon.ofSpec photon firstMoment.millis))

/-- The deployment that is created of it. -/
def made (photon : Photon.Spec) (spec : Deployment.Spec) : Deployment :=
  Deployments.start firstConfig spec (Photon.ofSpec photon firstMoment.millis).reread
    firstMoment.millis

/-- The keys after the deployment was created. -/
def created (photon : Photon.Spec) (spec : Deployment.Spec) : KeyStore :=
  (registered photon).write (firstConfig.deployments.key "d") (Kind.encode (made photon spec))

/-- The deployment after its patch. -/
def remade (photon : Photon.Spec) (spec : Deployment.Spec) (p : Patch) : Deployment :=
  Deployments.patched firstConfig p none (made photon spec).reread firstMoment.millis

variable {photon : Photon.Spec} {spec : Deployment.Spec} {p : Patch}

theorem forall_stored_of_nil {s : KeyStore} {names : List String} (h : names = []) :
    ∀ name ∈ names, ∃ v, firstConfig.secrets.Stored s name v := by
  rw [h]
  exact fun _ hname => absurd hname List.not_mem_nil

/-- The photon is stored under the identifier that the deployment names. -/
theorem undisturbed_photon (h : FirstBodies photon spec p) :
    ((Api.handle firstConfig "1" firstRequests[0]).undisturbed firstMoment .empty).2 =
      ⟨registered photon, .empty⟩ := by
  have hkey : (Photon.ofSpec photon firstMoment.millis).id = "m-9d3d52e5" := h.photonId
  have hcreate : (Photons.create firstConfig photon).run.undisturbed firstMoment .empty = _ :=
    Photons.undisturbed_create rfl h.photonNamed h.photonImage rfl
  rw [hkey] at hcreate
  rw [undisturbed_createPhoton rfl rfl h.readPhoton hcreate]
  rfl

/-- The first request leaves the photon. -/
theorem stored_photon (h : FirstBodies photon spec p) :
    firstConfig.photons.Stored (registered photon) spec.photonId
      (Photon.ofSpec photon firstMoment.millis).reread := by
  unfold registered
  rw [Repository.stored_write (HasBody.storable_ofSpec h.readPhoton _), if_pos h.specPhoton.symm]
  rfl

theorem get?_quota_registered (photon : Photon.Spec) :
    (registered photon).get? (firstConfig.quotas.key firstConfig.name) = none :=
  KeyStore.get?_write_of_ne (by decide) _ _

theorem get?_quota_created (photon : Photon.Spec) (spec : Deployment.Spec) :
    (created photon spec).get? (firstConfig.quotas.key firstConfig.name) = none :=
  (KeyStore.get?_write_of_ne (by decide) _ _).trans (get?_quota_registered photon)

/-- The deployment is created, as there is no quota. -/
theorem undisturbed_deployment (h : FirstBodies photon spec p) :
    ((Api.handle firstConfig "1" firstRequests[1]).undisturbed firstMoment
      ⟨registered photon, .empty⟩).2 = ⟨created photon spec, .empty⟩ := by
  obtain ⟨total, htotal⟩ := h.specTotal
  have hfree : (registered photon).get?
      (firstConfig.deployments.key (Name.deploymentId spec.name)) = none := by
    rw [h.specId]
    exact KeyStore.get?_write_of_ne (by decide) _ _
  have hcreate := Deployments.undisturbed_create (b := ⟨registered photon, .empty⟩) rfl
    h.specNamed h.specChecked (forall_stored_of_nil h.specRefs) htotal
    (Deployments.undisturbed_checkQuota_of_absent (get?_quota_registered photon) _ _ firstMoment)
    h.stored_photon hfree
  rw [h.specId] at hcreate
  rw [undisturbed_createDeployment rfl rfl h.readSpec hcreate]
  rfl

/-- The second request leaves the deployment. -/
theorem stored_deployment (h : FirstBodies photon spec p) :
    firstConfig.deployments.Stored (created photon spec) "d" (made photon spec).reread := by
  have hstorable : Kind.Storable (made photon spec) :=
    Deployment.storable (HasBody.inRange_requirement h.readSpec)
  unfold created
  rw [Repository.stored_write hstorable, if_pos rfl]
  rfl

/-- The patch finds the deployment, and what it makes of it takes its place. -/
theorem undisturbed_patch (h : FirstBodies photon spec p) :
    ((Api.handle firstConfig "1" firstRequests[2]).undisturbed firstMoment
      ⟨created photon spec, .empty⟩).2 =
        ⟨(created photon spec).write (firstConfig.deployments.key "d")
          (Kind.encode (remade photon spec p)), .empty⟩ := by
  obtain ⟨before, hbefore⟩ := h.storedTotal
  obtain ⟨after, hafter⟩ := h.patchedTotal
  have hpatch := Deployments.undisturbed_patch (b := ⟨created photon spec, .empty⟩) rfl
    h.stored_deployment h.patchPhoton h.patchEffective h.patchedChecked
    (forall_stored_of_nil h.patchedRefs) hbefore hafter
    (Deployments.undisturbed_checkQuota_of_absent (get?_quota_created photon spec) _ _ firstMoment)
  have hspelled : Parameter.decode? "d" = some "d" := by decide +kernel
  rw [undisturbed_patchDeployment rfl rfl hspelled h.stored_deployment h.readPatch hpatch]
  rfl

/-- The three requests one after another. -/
theorem foldl_undisturbed (h : FirstBodies photon spec p) :
    firstRequests.foldl
        (fun b r => ((Api.handle firstConfig "1" r).undisturbed firstMoment b).2) .empty =
      ⟨(created photon spec).write (firstConfig.deployments.key "d")
        (Kind.encode (remade photon spec p)), .empty⟩ := by
  have hrequests : firstRequests = [firstRequests[0], firstRequests[1], firstRequests[2]] := rfl
  rw [hrequests, List.foldl_cons, List.foldl_cons, List.foldl_cons, h.undisturbed_photon,
    h.undisturbed_deployment, h.undisturbed_patch]
  rfl

/-- What the patch makes can be stored. -/
theorem storable_remade (h : FirstBodies photon spec p) :
    Kind.Storable (remade photon spec p) := by
  have hrange : (made photon spec).spec.requirement.InRange :=
    HasBody.inRange_requirement h.readSpec
  exact Deployment.storable
    (p.inRange_apply (Kind.Lawful.inRange_reread (a := made photon spec) hrange))

end FirstBodies

/-- A deployment that was created and patched is stored and admitted. -/
theorem Served.admitted_firstRequests :
    let c : Config := { scope := "ns", name := "w", state := .normal }
    let now : Timestamp := ⟨1970, 1, 1, 0, 0, 0, 0⟩
    let b := firstRequests.foldl (fun b r => ((Api.handle c "1" r).undisturbed now b).2) .empty
    ∃ e, ∃ d : Deployment, Served c b ∧ b.keys.get? (c.deployments.key "d") = some e ∧
      Kind.decode? e.value = some d ∧ d.status.state = .updating ∧ Admitted c "d" d := by
  intro c now b
  have h : Served c b := Served.empty.undisturbed now firstRequests
  obtain ⟨photon, spec, p, bodies⟩ := exists_firstBodies
  have hb : b = _ := bodies.foldl_undisturbed
  obtain ⟨e, he, hdecoded⟩ :
      c.deployments.Stored b.keys "d" (FirstBodies.remade photon spec p).reread := by
    rw [hb]
    exact (Repository.stored_write bodies.storable_remade).2 (if_pos rfl ▸ rfl)
  obtain ⟨d, hd, hadmitted⟩ := h.admitted.1 "d" e he
  obtain rfl := Option.some.inj (hdecoded.symm.trans hd)
  exact ⟨e, _, h, he, hdecoded, rfl, hadmitted⟩

end Workspace

end Workplane
