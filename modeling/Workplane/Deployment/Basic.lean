import Workplane.Capacity.Requirement
import Workplane.Name
import Workplane.Storage.Kind

/-!
# Deployments

A deployment is a declared running service: what the user asked for (`Deployment.Spec`), what the
control plane derived from it (`Deployment.System`), and its status.  The deployment operator
watches the stored objects and carries them out.
-/

namespace Workplane

/-! ### What users give -/

/-- An environment variable: a literal value or a reference to a secret. -/
structure EnvVar where
  name : String
  value : Option String
  /-- The name of the secret that holds the value. -/
  secretRef : Option String
  deriving DecidableEq

namespace EnvVar

/-- Checks the name, and that there is exactly one source of the value. -/
def validate (e : EnvVar) : Except Invalid Unit :=
  match Name.validateEnv e.name with
  | .error i => .error i
  | .ok () => if e.value.isSome = e.secretRef.isSome then .error (.envSource e.name) else .ok ()

/-- A record with one text member. -/
def referenceJson (member name : String) : Json :=
  .object [(member, .string name)]

/-- The text member of a record with no other. -/
def referenceReader (member : String) : Reader String := fun room j => do
  (← Reader.members [member] room j).required member Reader.text

/-- An environment variable as a document. -/
def toJson (e : EnvVar) : Json :=
  .object ([("name", .string e.name)] ++ Json.optional "value" .string e.value ++
    Json.optional "value_from" (referenceJson "secret_name_ref") e.secretRef)

/-- An environment variable from a document. -/
def reader : Reader EnvVar := fun room j => do
  let m ← Reader.members ["name", "value", "value_from"] room j
  return {
    name := ← m.required "name" Reader.text
    value := ← m.omittable "value" Reader.text
    secretRef := ← m.omittable "value_from" (referenceReader "secret_name_ref") }

end EnvVar

/-- A bearer token that the endpoint of a deployment accepts. -/
structure Token where
  value : Option String
  /-- The name of a token that is kept elsewhere. -/
  tokenRef : Option String
  deriving DecidableEq

namespace Token

/-- A token as a document. -/
def toJson (t : Token) : Json :=
  .object (Json.optional "value" .string t.value ++
    Json.optional "value_from" (EnvVar.referenceJson "token_name_ref") t.tokenRef)

/-- A token from a document. -/
def reader : Reader Token := fun room j => do
  let m ← Reader.members ["value", "value_from"] room j
  return {
    value := ← m.omittable "value" Reader.text
    tokenRef := ← m.omittable "value_from" (EnvVar.referenceReader "token_name_ref") }

end Token

/-- A path of the workspace file system that every replica sees. -/
structure Mount where
  path : String
  mountPath : String
  deriving DecidableEq

namespace Mount

/-- A path that starts at the root. -/
def isAbsolute (path : String) : Bool :=
  path.toList.head? == some '/'

/-- Checks that both paths are absolute. -/
def validate (m : Mount) : Except Invalid Unit :=
  if isAbsolute m.path && isAbsolute m.mountPath then .ok ()
  else .error (.mountNotAbsolute m.path m.mountPath)

/-- A mount as a document. -/
def toJson (m : Mount) : Json :=
  .object [("path", .string m.path), ("mount_path", .string m.mountPath)]

/-- A mount from a document. -/
def reader : Reader Mount := fun room j => do
  let m ← Reader.members ["path", "mount_path"] room j
  return {
    path := ← m.required "path" Reader.text
    mountPath := ← m.required "mount_path" Reader.text }

end Mount

/-- The part of a deployment that users write. -/
structure Deployment.Spec where
  name : String
  photonId : String
  requirement : Requirement
  apiTokens : Option (List Token)
  envs : Option (List EnvVar)
  mounts : Option (List Mount)

namespace Deployment.Spec

/-- The secrets that the environment refers to, in order. -/
def secretRefs (s : Deployment.Spec) : List String :=
  (s.envs.getD []).filterMap EnvVar.secretRef

/-- Checks everything but the name that can be checked without the store. -/
def validate (s : Deployment.Spec) : Except Invalid Unit := do
  s.requirement.validate
  (s.envs.getD []).forM EnvVar.validate
  (s.mounts.getD []).forM Mount.validate

/-- A list as a document. -/
def listJson (encode : α → Json) (as : List α) : Json :=
  .array (as.map encode)

/-- A specification as a document. -/
def toJson (s : Deployment.Spec) : Json :=
  .object ([("name", .string s.name), ("photon_id", .string s.photonId),
      ("resource_requirement", s.requirement.toJson)] ++
    Json.optional "api_tokens" (listJson Token.toJson) s.apiTokens ++
    Json.optional "envs" (listJson EnvVar.toJson) s.envs ++
    Json.optional "mounts" (listJson Mount.toJson) s.mounts)

/-- A specification from a document. -/
def reader : Reader Deployment.Spec := fun room j => do
  let m ← Reader.members ["name", "photon_id", "resource_requirement", "api_tokens", "envs",
    "mounts"] room j
  return {
    name := ← m.required "name" Reader.text
    photonId := ← m.required "photon_id" Reader.text
    requirement := ← m.required "resource_requirement" Requirement.reader
    apiTokens := ← m.omittable "api_tokens" (Reader.list Token.reader)
    envs := ← m.omittable "envs" (Reader.list EnvVar.reader)
    mounts := ← m.omittable "mounts" (Reader.list Mount.reader) }

end Deployment.Spec

/-! ### What the control plane derives -/

/-- The part of a deployment that is derived when it is admitted. -/
structure Deployment.System where
  /-- The image, from the registry of the workspace. -/
  image : String
  /-- The name of the model that the deployment serves. -/
  photonName : String
  bucketPath : String
  efsPath : String
  rootDomain : String
  workspaceToken : String
  certificateArn : String
  deriving DecidableEq

namespace Deployment.System

/-- A derived part in which everything is empty. -/
def empty : Deployment.System := ⟨"", "", "", "", "", "", ""⟩

/-- A derived part as a document. -/
def toJson (s : Deployment.System) : Json :=
  .object ([("image", .string s.image), ("photon_name", .string s.photonName),
      ("bucket_path", .string s.bucketPath), ("efs_path", .string s.efsPath),
      ("root_domain", .string s.rootDomain), ("workspace_token", .string s.workspaceToken)] ++
    if s.certificateArn.isEmpty then [] else [("certificate_arn", .string s.certificateArn)])

/-- A derived part from a document. -/
def reader : Reader Deployment.System := fun room j => do
  let m ← Reader.members ["image", "photon_name", "bucket_path", "efs_path", "root_domain",
    "workspace_token", "certificate_arn"] room j
  return {
    image := ← m.required "image" Reader.text
    photonName := ← m.required "photon_name" Reader.text
    bucketPath := ← m.required "bucket_path" Reader.text
    efsPath := ← m.required "efs_path" Reader.text
    rootDomain := ← m.required "root_domain" Reader.text
    workspaceToken := ← m.required "workspace_token" Reader.text
    certificateArn := ← m.withDefault "certificate_arn" "" Reader.text }

end Deployment.System

/-- Where a deployment stands.  The control plane sets `starting` and `updating`, the deployment
operator the others. -/
inductive Deployment.State where
  | starting
  | updating
  | running
  | notReady
  | unknown
  deriving DecidableEq

namespace Deployment.State

/-- The states with their written names. -/
def names : List (String × Deployment.State) :=
  [("starting", starting), ("updating", updating), ("running", running), ("not_ready", notReady),
    ("unknown", unknown)]

/-- The written name of a state. -/
def name : Deployment.State → String
  | starting => "starting"
  | updating => "updating"
  | running => "running"
  | notReady => "not_ready"
  | unknown => "unknown"

/-- A state as a document. -/
def toJson (s : Deployment.State) : Json :=
  .string s.name

/-- A state from a document. -/
def reader : Reader Deployment.State :=
  Reader.choice names

end Deployment.State

/-- The addresses of a deployment. -/
structure Deployment.Endpoint where
  internal : String
  external : String
  deriving DecidableEq

namespace Deployment.Endpoint

/-- No addresses. -/
def empty : Deployment.Endpoint := ⟨"", ""⟩

/-- Addresses as a document. -/
def toJson (e : Deployment.Endpoint) : Json :=
  .object [("internal_endpoint", .string e.internal), ("external_endpoint", .string e.external)]

/-- Addresses from a document. -/
def reader : Reader Deployment.Endpoint := fun room j => do
  let m ← Reader.members ["internal_endpoint", "external_endpoint"] room j
  return {
    internal := ← m.withDefault "internal_endpoint" "" Reader.text
    external := ← m.withDefault "external_endpoint" "" Reader.text }

end Deployment.Endpoint

/-- The status of a deployment. -/
structure Deployment.Status where
  state : Deployment.State
  endpoint : Deployment.Endpoint
  deriving DecidableEq

namespace Deployment.Status

/-- The status of a deployment that has none. -/
def initial : Deployment.Status := ⟨.starting, .empty⟩

/-- A status as a document. -/
def toJson (s : Deployment.Status) : Json :=
  .object [("state", s.state.toJson), ("endpoint", s.endpoint.toJson)]

/-- A status from a document. -/
def reader : Reader Deployment.Status := fun room j => do
  let m ← Reader.members ["state", "endpoint"] room j
  return {
    state := ← m.required "state" Deployment.State.reader
    endpoint := ← m.withDefault "endpoint" .empty Deployment.Endpoint.reader }

end Deployment.Status

/-! ### Deployments -/

/-- A declared running service. -/
structure Deployment where
  /-- Derived from the name in the specification. -/
  id : String
  spec : Deployment.Spec
  system : Deployment.System
  status : Deployment.Status
  /-- Milliseconds since 1970. -/
  createdAt : UInt64
  /-- Milliseconds since 1970. -/
  updatedAt : UInt64

namespace Deployment

/-- A deployment as a document. -/
def toJson (d : Deployment) : Json :=
  .object [("id", .string d.id), ("spec", d.spec.toJson), ("system", d.system.toJson),
    ("status", d.status.toJson), ("created_at_ms", .int d.createdAt.toNat),
    ("updated_at_ms", .int d.updatedAt.toNat)]

/-- A deployment from a document. -/
def reader : Reader Deployment := fun room j => do
  let m ← Reader.members ["id", "spec", "system", "status", "created_at_ms", "updated_at_ms"] room j
  return {
    id := ← m.required "id" Reader.text
    spec := ← m.required "spec" Spec.reader
    system := ← m.withDefault "system" .empty System.reader
    status := ← m.withDefault "status" .initial Status.reader
    createdAt := ← m.withDefault "created_at_ms" 0 Reader.uint64
    updatedAt := ← m.withDefault "updated_at_ms" 0 Reader.uint64 }

instance : Kind Deployment where
  plural := "deployments"
  objectName := id
  toJson := toJson
  reader := reader

end Deployment

end Workplane
