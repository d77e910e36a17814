import Workplane.Deployment.Patch
import Workplane.Proofs.Objects.Records
import Workplane.Secret

/-!
# Secrets and deployments read back
-/

namespace Workplane

open Reader Deployment.Spec

/-! ### Secrets -/

theorem Secret.reader_toJson (s : Secret) (room : Nat) :
    Secret.reader (room + 1) s.toJson = some s := by
  rw [Secret.reader, Secret.toJson, members_object room (by simp) (by simp)]
  rfl

instance : Kind.Lawful Secret where
  reread s := s
  InRange _ := True
  toJson_reread _ := rfl
  inRange_reread _ := trivial
  objectName_reread _ := rfl
  inRange_of_reader _ _ := trivial
  reader_toJson {room _ a} hroom _ _ := by
    obtain ⟨room, rfl⟩ : ∃ r, room = r + 1 := ⟨room - 1, by omega⟩
    exact a.reader_toJson room
  reader_reread _ _ h := h
  eq_of_reader {_ room' a _} hroom _ h := by
    obtain ⟨room', rfl⟩ : ∃ r, room' = r + 1 := ⟨room' - 1, by omega⟩
    exact Option.some.inj (h.symm.trans (a.reader_toJson room'))

theorem Secret.storable (v : Secret) : Kind.Storable v :=
  ⟨trivial, v.reader_toJson 126⟩

/-! ### The parts of a deployment -/

theorem EnvVar.reader_toJson (e : EnvVar) (room : Nat) :
    EnvVar.reader (room + 2) e.toJson = some e := by
  obtain ⟨name, value, secretRef⟩ := e
  rw [EnvVar.reader, EnvVar.toJson]
  cases value <;> cases secretRef <;>
    rw [members_object (room + 1) (by simp [Json.optional]) (by simp [Json.optional])] <;> rfl

theorem Token.reader_toJson (t : Token) (room : Nat) :
    Token.reader (room + 2) t.toJson = some t := by
  obtain ⟨value, tokenRef⟩ := t
  rw [Token.reader, Token.toJson]
  cases value <;> cases tokenRef <;>
    rw [members_object (room + 1) (by simp [Json.optional]) (by simp [Json.optional])] <;> rfl

theorem Mount.reader_toJson (m : Mount) (room : Nat) :
    Mount.reader (room + 1) m.toJson = some m := by
  rw [Mount.reader, Mount.toJson, members_object room (by simp) (by simp)]
  rfl

theorem Deployment.System.reader_toJson (s : Deployment.System) (room : Nat) :
    Deployment.System.reader (room + 1) s.toJson = some s := by
  obtain ⟨image, photonName, bucketPath, efsPath, rootDomain, workspaceToken, certificateArn⟩ := s
  rw [Deployment.System.reader, Deployment.System.toJson]
  by_cases h : certificateArn.isEmpty = true
  · obtain rfl := String.isEmpty_iff.1 h
    rw [members_object room (by simp) (by simp)]
    rfl
  · simp only [h]
    rw [members_object room (by simp) (by simp)]
    rfl

theorem Deployment.Endpoint.reader_toJson (e : Deployment.Endpoint) (room : Nat) :
    Deployment.Endpoint.reader (room + 1) e.toJson = some e := by
  rw [Deployment.Endpoint.reader, Deployment.Endpoint.toJson,
    members_object room (by simp) (by simp)]
  rfl

theorem Deployment.Status.reader_toJson (s : Deployment.Status) (room : Nat) :
    Deployment.Status.reader (room + 2) s.toJson = some s := by
  obtain ⟨state, endpoint⟩ := s
  rw [Deployment.Status.reader, Deployment.Status.toJson,
    members_object (room + 1) (by simp) (by simp)]
  cases state <;> rfl

theorem Requirement.reader_toJson (r : Requirement) (room : Nat) :
    Requirement.reader (room + 1) r.toJson = some r := by
  obtain ⟨cpu, memory, acceleratorType, accelerators, shape, minReplicas, exclusive⟩ := r
  rw [Requirement.reader, Requirement.toJson, members_object room]
  · generalize hm : (⟨false, room, _⟩ : Members) = m
    have hroom : m.room = room := by rw [← hm]
    have hcpu : m.withDefault "cpu" 0 float = some cpu := by
      rw [← hm]
      rfl
    have hmemory : m.withDefault "memory" 0 int64 = some memory := by
      rw [← hm]
      exact int64_toInt memory room
    have htype : m.withDefault "accelerator_type" "" text = some acceleratorType := by
      refine Members.withDefault_isEmpty ?_
      rw [← hm]
      cases acceleratorType.isEmpty <;> cases shape.isEmpty <;> cases minReplicas <;> rfl
    have haccelerators : m.withDefault "accelerator_num" 0 float = some accelerators := by
      rw [← hm]
      cases acceleratorType.isEmpty <;> rfl
    have hshape : m.withDefault "resource_shape" "" text = some shape := by
      refine Members.withDefault_isEmpty ?_
      rw [← hm]
      cases acceleratorType.isEmpty <;> cases shape.isEmpty <;> cases minReplicas <;> rfl
    have hreplicas : m.omittable "min_replicas" uint32 = some minReplicas := by
      refine Members.omittable_map (fun n => .int n.toNat) ?_ fun n _ => ?_
      · rw [← hm]
        cases acceleratorType.isEmpty <;> cases shape.isEmpty <;> cases minReplicas <;> rfl
      · show (uint32 m.room (.int n.toNat)).map some = _
        rw [uint32_toNat]
        rfl
    have hexclusive : m.withDefault "exclusive" false bool = some exclusive := by
      rw [← hm]
      cases acceleratorType.isEmpty <;> cases shape.isEmpty <;> cases minReplicas <;> rfl
    simp only [Option.bind_eq_bind, Option.bind_some, hcpu, hmemory, htype, haccelerators, hshape,
      hreplicas, hexclusive]
    rfl
  · cases acceleratorType.isEmpty <;> cases shape.isEmpty <;> cases minReplicas <;>
      simp [Json.optional]
  · cases acceleratorType.isEmpty <;> cases shape.isEmpty <;> cases minReplicas <;>
      simp [Json.optional]

theorem Deployment.Spec.reader_toJson (s : Deployment.Spec) (room : Nat) :
    Deployment.Spec.reader (room + 4) s.toJson = some s := by
  obtain ⟨name, photonId, requirement, apiTokens, envs, mounts⟩ := s
  rw [Deployment.Spec.reader, Deployment.Spec.toJson, members_object (room + 3)]
  · generalize hm : (⟨false, room + 3, _⟩ : Members) = m
    have hroom : m.room = room + 3 := by rw [← hm]
    have hname : m.required "name" text = some name := by
      rw [← hm]
      rfl
    have hphoton : m.required "photon_id" text = some photonId := by
      rw [← hm]
      rfl
    have hrequirement : m.required "resource_requirement" Requirement.reader =
        some requirement := by
      rw [← hm]
      exact requirement.reader_toJson (room + 2)
    have htokens : m.omittable "api_tokens" (list Token.reader) = some apiTokens := by
      refine Members.omittable_map (listJson Token.toJson) ?_ fun ts _ => ?_
      · rw [← hm]
        cases apiTokens <;> cases envs <;> cases mounts <;> rfl
      · show (list Token.reader m.room (.array (ts.map Token.toJson))).map some = _
        rw [hroom, list_map fun t : Token => t.reader_toJson room]
        rfl
    have henvs : m.omittable "envs" (list EnvVar.reader) = some envs := by
      refine Members.omittable_map (listJson EnvVar.toJson) ?_ fun es _ => ?_
      · rw [← hm]
        cases apiTokens <;> cases envs <;> cases mounts <;> rfl
      · show (list EnvVar.reader m.room (.array (es.map EnvVar.toJson))).map some = _
        rw [hroom, list_map fun e : EnvVar => e.reader_toJson room]
        rfl
    have hmounts : m.omittable "mounts" (list Mount.reader) = some mounts := by
      refine Members.omittable_map (listJson Mount.toJson) ?_ fun ms _ => ?_
      · rw [← hm]
        cases apiTokens <;> cases envs <;> cases mounts <;> rfl
      · show (list Mount.reader m.room (.array (ms.map Mount.toJson))).map some = _
        rw [hroom, list_map fun m : Mount => m.reader_toJson (room + 1)]
        rfl
    simp only [Option.bind_eq_bind, Option.bind_some, hname, hphoton, hrequirement, htokens, henvs,
      hmounts]
    rfl
  · cases apiTokens <;> cases envs <;> cases mounts <;> simp [Json.optional]
  · cases apiTokens <;> cases envs <;> cases mounts <;> simp [Json.optional]

/-- A deployment is read back from its own document, five levels deep. -/
theorem Deployment.reader_toJson (d : Deployment) (room : Nat) :
    Deployment.reader (room + 5) d.toJson = some d := by
  obtain ⟨id, spec, system, status, createdAt, updatedAt⟩ := d
  rw [Deployment.reader, Deployment.toJson, members_object (room + 4) (by simp) (by simp)]
  have hspec := spec.reader_toJson room
  have hsystem := system.reader_toJson (room + 3)
  have hstatus := status.reader_toJson (room + 2)
  have hcreated := uint64_toNat createdAt (room + 4)
  have hupdated := uint64_toNat updatedAt (room + 4)
  simp only [Option.bind_eq_bind, Option.bind_some]
  show ((Deployment.Spec.reader (room + 4) spec.toJson).bind _) = _
  rw [hspec]
  show ((Deployment.System.reader (room + 4) system.toJson).bind _) = _
  rw [hsystem]
  show ((Deployment.Status.reader (room + 4) status.toJson).bind _) = _
  rw [hstatus]
  show ((uint64 (room + 4) (.int createdAt.toNat)).bind _) = _
  rw [hcreated]
  show ((uint64 (room + 4) (.int updatedAt.toNat)).bind _) = _
  rw [hupdated]
  rfl

/-! ### The numbers of a deployment -/

/-- The doubles of the requirement are finite. -/
structure Requirement.InRange (r : Requirement) : Prop where
  cpu : r.cpu.isFinite = true
  accelerators : r.accelerators.isFinite = true

/-- The requirement that a stored requirement is read as. -/
def Requirement.reread (r : Requirement) : Requirement :=
  { r with cpu := Double.reread r.cpu, accelerators := Double.reread r.accelerators }

/-- The deployment that a stored deployment is read as. -/
def Deployment.reread (d : Deployment) : Deployment :=
  { d with spec := { d.spec with requirement := d.spec.requirement.reread } }

/-- A deployment is read back as it was exactly if its doubles are. -/
theorem Deployment.reread_eq_iff (d : Deployment) :
    d.reread = d ↔ Double.reread d.spec.requirement.cpu = d.spec.requirement.cpu ∧
      Double.reread d.spec.requirement.accelerators = d.spec.requirement.accelerators := by
  constructor
  · intro h
    have hrequirement := congrArg (fun d : Deployment => d.spec.requirement) h
    exact ⟨congrArg Requirement.cpu hrequirement, congrArg Requirement.accelerators hrequirement⟩
  · rintro ⟨hcpu, haccelerators⟩
    unfold reread Requirement.reread
    simp only [hcpu, haccelerators]

theorem Reader.isFinite_of_float {room : Nat} {j : Json} {x : Float} (hj : j.InRange)
    (h : float room j = some x) : x.isFinite = true := by
  unfold float at h
  split at h
  · obtain rfl := Option.some.inj h
    exact hj
  · rename_i n
    obtain ⟨hlow, hhigh⟩ : -2 ^ 63 ≤ n ∧ n < 2 ^ 64 := hj
    obtain rfl := Option.some.inj h
    exact Double.isFinite_ofInt (by omega)
  · exact nomatch h

theorem Reader.isFinite_of_withDefault {m : Members} (hm : m.InRange) {name : String} {x : Float}
    (h : m.withDefault name 0 float = some x) : x.isFinite = true := by
  obtain rfl | ⟨j, hj, hx⟩ := Members.of_withDefault h
  · decide +kernel
  · exact isFinite_of_float (hm _ hj) hx

theorem Requirement.inRange_of_reader {room : Nat} {j : Json} {r : Requirement} (hj : j.InRange)
    (h : Requirement.reader room j = some r) : r.InRange := by
  obtain ⟨m, hm, h⟩ := Option.bind_eq_some_iff.1 h
  have hm' := inRange_members hj hm
  obtain ⟨cpu, hcpu, h⟩ := Option.bind_eq_some_iff.1 h
  obtain ⟨memory, -, h⟩ := Option.bind_eq_some_iff.1 h
  obtain ⟨type, -, h⟩ := Option.bind_eq_some_iff.1 h
  obtain ⟨accelerators, haccelerators, h⟩ := Option.bind_eq_some_iff.1 h
  obtain ⟨shape, -, h⟩ := Option.bind_eq_some_iff.1 h
  obtain ⟨replicas, -, h⟩ := Option.bind_eq_some_iff.1 h
  obtain ⟨exclusive, -, h⟩ := Option.bind_eq_some_iff.1 h
  obtain rfl := Option.some.inj h
  exact ⟨isFinite_of_withDefault hm' hcpu, isFinite_of_withDefault hm' haccelerators⟩

theorem Deployment.Spec.inRange_of_reader {room : Nat} {j : Json} {s : Deployment.Spec}
    (hj : j.InRange) (h : Deployment.Spec.reader room j = some s) : s.requirement.InRange := by
  obtain ⟨m, hm, h⟩ := Option.bind_eq_some_iff.1 h
  obtain ⟨name, -, h⟩ := Option.bind_eq_some_iff.1 h
  obtain ⟨photonId, -, h⟩ := Option.bind_eq_some_iff.1 h
  obtain ⟨requirement, hrequirement, h⟩ := Option.bind_eq_some_iff.1 h
  obtain ⟨k, hk, hread⟩ := Members.exists_of_required hrequirement
  have hrange := Requirement.inRange_of_reader (inRange_members hj hm _ hk) hread
  obtain ⟨tokens, -, h⟩ := Option.bind_eq_some_iff.1 h
  obtain ⟨envs, -, h⟩ := Option.bind_eq_some_iff.1 h
  obtain ⟨mounts, -, h⟩ := Option.bind_eq_some_iff.1 h
  obtain rfl := Option.some.inj h
  exact hrange

/-- The quantities of a deployment that was read are finite. -/
theorem Deployment.inRange_of_reader {room : Nat} {j : Json} {d : Deployment}
    (hj : j.InRange) (h : Deployment.reader room j = some d) : d.spec.requirement.InRange := by
  obtain ⟨m, hm, h⟩ := Option.bind_eq_some_iff.1 h
  obtain ⟨id, -, h⟩ := Option.bind_eq_some_iff.1 h
  obtain ⟨spec, hspec, h⟩ := Option.bind_eq_some_iff.1 h
  obtain ⟨k, hk, hread⟩ := Members.exists_of_required hspec
  have hrange := Deployment.Spec.inRange_of_reader (inRange_members hj hm _ hk) hread
  obtain ⟨system, -, h⟩ := Option.bind_eq_some_iff.1 h
  obtain ⟨status, -, h⟩ := Option.bind_eq_some_iff.1 h
  obtain ⟨createdAt, -, h⟩ := Option.bind_eq_some_iff.1 h
  obtain ⟨updatedAt, -, h⟩ := Option.bind_eq_some_iff.1 h
  obtain rfl := Option.some.inj h
  exact hrange

/-! ### Reading again -/

/-- Documents without numbers are read back as they were. -/
theorem EnvVar.toJson_reread (e : EnvVar) : e.toJson.reread = e.toJson := by
  obtain ⟨name, value, secretRef⟩ := e
  cases value <;> cases secretRef <;> rfl

theorem Token.toJson_reread (t : Token) : t.toJson.reread = t.toJson := by
  obtain ⟨value, tokenRef⟩ := t
  cases value <;> cases tokenRef <;> rfl

theorem Deployment.System.toJson_reread (s : Deployment.System) : s.toJson.reread = s.toJson := by
  unfold Deployment.System.toJson
  cases s.certificateArn.isEmpty <;> rfl

/-- Reading the text of a document back is to reread the quantities. -/
theorem Requirement.toJson_reread {r : Requirement} (h : r.InRange) :
    r.toJson.reread = r.reread.toJson := by
  have hcpu : (Json.float r.cpu).reread = .float (Double.reread r.cpu) := Number.reread_float h.cpu
  have haccelerators : (Json.float r.accelerators).reread =
      .float (Double.reread r.accelerators) := Number.reread_float h.accelerators
  have hmemory := Json.reread_int64 r.memory
  obtain ⟨cpu, memory, acceleratorType, accelerators, shape, minReplicas, exclusive⟩ := r
  simp only at hcpu haccelerators hmemory
  have hreplicas : ∀ n : UInt32, (Json.int n.toNat).reread = .int n.toNat := fun n =>
    Json.reread_natCast (n.toNat_lt.trans (by decide))
  unfold Requirement.toJson Requirement.reread
  simp only
  cases acceleratorType.isEmpty <;> cases shape.isEmpty <;> cases minReplicas <;>
    simp [Json.reread, Json.rereadMembers, Json.optional, hcpu, haccelerators, hmemory, hreplicas]

theorem Deployment.Spec.toJson_reread {s : Deployment.Spec} (h : s.requirement.InRange) :
    s.toJson.reread =
      ({ s with requirement := s.requirement.reread } : Deployment.Spec).toJson := by
  have hrequirement := Requirement.toJson_reread h
  have htokens (ts : List Token) :
      (listJson Token.toJson ts).reread = listJson Token.toJson ts :=
    Json.array_map_reread Token.toJson_reread ts
  have henvs (es : List EnvVar) : (listJson EnvVar.toJson es).reread = listJson EnvVar.toJson es :=
    Json.array_map_reread EnvVar.toJson_reread es
  have hmounts (ms : List Mount) : (listJson Mount.toJson ms).reread = listJson Mount.toJson ms :=
    Json.array_map_reread (fun _ => rfl) ms
  obtain ⟨name, photonId, requirement, apiTokens, envs, mounts⟩ := s
  unfold Deployment.Spec.toJson
  simp only at hrequirement
  cases apiTokens <;> cases envs <;> cases mounts <;>
    simp [Json.reread, Json.rereadMembers, Json.optional, hrequirement, htokens, henvs, hmounts]

/-- Of a deployment only the quantities are reread. -/
theorem Deployment.toJson_reread {d : Deployment} (h : d.spec.requirement.InRange) :
    d.toJson.reread = d.reread.toJson := by
  have hspec := Deployment.Spec.toJson_reread h
  have hcreated := Json.reread_natCast d.createdAt.toNat_lt
  have hupdated := Json.reread_natCast d.updatedAt.toNat_lt
  have hstatus : d.status.toJson.reread = d.status.toJson := rfl
  unfold Deployment.toJson Deployment.reread
  simp [Json.reread, Json.rereadMembers, hspec, d.system.toJson_reread, hstatus, hcreated, hupdated]

instance : Kind.Lawful Deployment where
  reread := Deployment.reread
  InRange d := d.spec.requirement.InRange
  toJson_reread := Deployment.toJson_reread
  inRange_reread h := ⟨Double.isFinite_reread h.cpu, Double.isFinite_reread h.accelerators⟩
  objectName_reread _ := rfl
  inRange_of_reader := Deployment.inRange_of_reader
  reader_toJson {room _ d} hroom _ _ := by
    obtain ⟨room, rfl⟩ : ∃ r, room = r + 5 := ⟨room - 5, by omega⟩
    exact d.reader_toJson room
  reader_reread {room d} hroom _ _ := by
    obtain ⟨room, rfl⟩ : ∃ r, room = r + 5 := ⟨room - 5, by omega⟩
    exact d.reread.reader_toJson room
  eq_of_reader {_ room' a _} hroom _ h := by
    obtain ⟨room', rfl⟩ : ∃ r, room' = r + 5 := ⟨room' - 5, by omega⟩
    exact Option.some.inj (h.symm.trans (a.reader_toJson room'))

/-- A deployment with finite quantities is stored without loss but for their rereading. -/
theorem Deployment.storable {d : Deployment} (h : d.spec.requirement.InRange) : Kind.Storable d :=
  ⟨h, d.reader_toJson 122⟩

/-! ### Patches -/

/-- A patch leaves the doubles of a requirement in range. -/
theorem RequirementPatch.inRange_apply {r : Requirement} (h : r.InRange) (p : RequirementPatch) :
    (p.apply r).InRange := by
  have hzero : (0 : Float).isFinite = true := by decide +kernel
  unfold RequirementPatch.apply
  split <;> split
  · exact ⟨h.cpu, h.accelerators⟩
  · exact ⟨hzero, hzero⟩
  · exact h
  · exact ⟨hzero, hzero⟩

/-- A patch brings no quantities of its own. -/
theorem Patch.inRange_apply {s : Deployment.Spec} (h : s.requirement.InRange) (p : Patch) :
    (p.apply s).requirement.InRange := by
  unfold Patch.apply
  cases p.requirement with
  | none => exact h
  | some r => exact RequirementPatch.inRange_apply h r

end Workplane
