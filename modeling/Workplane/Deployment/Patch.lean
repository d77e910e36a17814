import Workplane.Deployment.Basic

/-!
# Patches

A patch names the parts of a deployment that change.  An empty text, zero replicas and a missing
list leave their part as it is.
-/

namespace Workplane

/-- The part of a patch that concerns resources. -/
structure RequirementPatch where
  minReplicas : UInt32
  shape : String
  deriving DecidableEq

namespace RequirementPatch

/-- The requirement after the patch.  A shape takes the place of raw resources. -/
def apply (p : RequirementPatch) (r : Requirement) : Requirement :=
  let r := if p.minReplicas > 0 then { r with minReplicas := some p.minReplicas } else r
  if p.shape.isEmpty then r
  else { r with shape := p.shape, cpu := 0, memory := 0, acceleratorType := "", accelerators := 0 }

/-- Whether the patch names anything. -/
def isEffective (p : RequirementPatch) : Bool :=
  p.minReplicas > 0 || !p.shape.isEmpty

/-- A patch as a document. -/
def toJson (p : RequirementPatch) : Json :=
  .object [("min_replicas", .int p.minReplicas.toNat), ("resource_shape", .string p.shape)]

/-- A patch from a document. -/
def reader : Reader RequirementPatch := fun room j => do
  let m ← Reader.members ["min_replicas", "resource_shape"] room j
  return {
    minReplicas := ← m.withDefault "min_replicas" 0 Reader.uint32
    shape := ← m.withDefault "resource_shape" "" Reader.text }

end RequirementPatch

/-- A partial update of a deployment. -/
structure Patch where
  photonId : String
  /-- Takes the place of the image that follows from the photon. -/
  image : String
  requirement : Option RequirementPatch
  apiTokens : Option (List Token)
  envs : Option (List EnvVar)
  mounts : Option (List Mount)

namespace Patch

/-- The photon to change to. -/
def newPhotonId (p : Patch) : Option String :=
  if p.photonId.isEmpty then none else some p.photonId

/-- The image to change to. -/
def newImage (p : Patch) : Option String :=
  if p.image.isEmpty then none else some p.image

/-- The specification after the patch. -/
def apply (p : Patch) (s : Deployment.Spec) : Deployment.Spec :=
  { s with
    photonId := p.newPhotonId.getD s.photonId
    requirement := match p.requirement with
      | some r => r.apply s.requirement
      | none => s.requirement
    apiTokens := p.apiTokens <|> s.apiTokens
    envs := p.envs <|> s.envs
    mounts := p.mounts <|> s.mounts }

/-- Whether the patch names any part of the specification. -/
def isEffective (p : Patch) : Bool :=
  p.newPhotonId.isSome || p.requirement.any RequirementPatch.isEffective || p.apiTokens.isSome ||
    p.envs.isSome || p.mounts.isSome

/-- A patch as a document. -/
def toJson (p : Patch) : Json :=
  .object [("photon_id", .string p.photonId), ("image", .string p.image),
    ("resource_requirement", .nullable RequirementPatch.toJson p.requirement),
    ("api_tokens", .nullable (Deployment.Spec.listJson Token.toJson) p.apiTokens),
    ("envs", .nullable (Deployment.Spec.listJson EnvVar.toJson) p.envs),
    ("mounts", .nullable (Deployment.Spec.listJson Mount.toJson) p.mounts)]

/-- A patch from a document. -/
def reader : Reader Patch := fun room j => do
  let m ← Reader.members ["photon_id", "image", "resource_requirement", "api_tokens", "envs",
    "mounts"] room j
  return {
    photonId := ← m.withDefault "photon_id" "" Reader.text
    image := ← m.withDefault "image" "" Reader.text
    requirement := ← m.omittable "resource_requirement" RequirementPatch.reader
    apiTokens := ← m.omittable "api_tokens" (Reader.list Token.reader)
    envs := ← m.omittable "envs" (Reader.list EnvVar.reader)
    mounts := ← m.omittable "mounts" (Reader.list Mount.reader) }

end Patch

end Workplane
