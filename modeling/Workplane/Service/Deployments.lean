import Workplane.Deployment.Patch
import Workplane.Service.Basic

/-!
# Deployments of a workspace

Listing, creating, patching and deleting deployments.  A deployment is written only after its
whole specification was checked, against the store as well: the secrets and the photon exist and
the quota admits the resources.  A patch replaces the very object that it was based on.
-/

namespace Workplane.Service.Deployments

open Workspace (Config)

/-- All deployments in the order of their identifiers. -/
def list (c : Config) : Service (List Deployment) := do
  let deployments ← ofStore c.deployments.list
  return deployments.mergeSort fun d e => decide (d.id ≤ e.id)

/-- The deployment with an identifier. -/
def get (c : Config) (id : String) : Service Deployment :=
  ofStore (c.deployments.get id)

/-! ### Checks -/

/-- Checks that a secret exists. -/
def checkSecret (c : Config) (name : String) : Service Unit := do
  match ← ifFound (c.secrets.get name) with
  | some _ => return ()
  | none => throw (.secretMissing name)

/-- Checks everything in a specification that does not depend on the name. -/
def checkSpec (c : Config) (spec : Deployment.Spec) : Service Unit := do
  ofCheck spec.validate
  spec.secretRefs.forM (checkSecret c)

/-- Checks that the quota admits a request; what the request replaces counts as free. -/
def checkQuota (c : Config) (requested : Resources) (replaced : Option Resources) :
    Service Unit := do
  if Quota.admits (← quota c) requested replaced then return ()
  else throw (.overQuota requested)

/-! ### Changes -/

/-- A new deployment. -/
def start (c : Config) (spec : Deployment.Spec) (photon : Photon) (now : UInt64) : Deployment :=
  let id := Name.deploymentId spec.name
  { id
    spec
    system := c.system id photon.spec.name photon.spec.image
    status := ⟨.starting, c.endpoint id⟩
    createdAt := now
    updatedAt := now }

/-- Creates a deployment. -/
def create (c : Config) (spec : Deployment.Spec) : Service Deployment := do
  ensureWritable c
  ofCheck (Name.validate spec.name)
  checkSpec c spec
  checkQuota c (← ofCheck spec.requirement.total) none
  let photon ← resolvePhoton c spec.photonId
  let now ← (Program.now : Program Timestamp)
  let deployment := start c spec photon now.millis
  let _ ← ofStore (c.deployments.create deployment.id deployment)
  return deployment

/-- The photon that a patch changes to, which must be a build of the same model. -/
def newPhoton (c : Config) (patch : Patch) (current : Deployment) : Service (Option Photon) := do
  match patch.newPhotonId with
  | none => return none
  | some id =>
    let photon ← resolvePhoton c id
    if photon.spec.name = current.system.photonName then return some photon
    else throw .otherModel

/-- The image after a patch: its own image, else that of the new photon, else the current one. -/
def patchedImage (c : Config) (patch : Patch) (photon : Option Photon) (current : String) :
    String :=
  match patch.newImage, photon with
  | some image, _ => c.placeImage image
  | none, some photon => c.placeImage photon.spec.image
  | none, none => current

/-- A deployment after a patch. -/
def patched (c : Config) (patch : Patch) (photon : Option Photon) (current : Deployment)
    (now : UInt64) : Deployment :=
  { current with
    spec := patch.apply current.spec
    system := { current.system with image := patchedImage c patch photon current.system.image }
    status := { current.status with state := .updating }
    updatedAt := now }

/-- Applies a patch to the deployment with an identifier. -/
def patch (c : Config) (id : String) (patch : Patch) : Service Deployment := do
  ensureWritable c
  let current ← ofStore (c.deployments.getVersioned id)
  let photon ← newPhoton c patch current.object
  if !patch.isEffective && patch.newImage.isNone then throw .emptyPatch
  let spec := patch.apply current.object.spec
  checkSpec c spec
  -- What the deployment holds already must not be charged twice.
  let replaced ← ofCheck current.object.spec.requirement.total
  let requested ← ofCheck spec.requirement.total
  checkQuota c requested (some replaced)
  let now ← (Program.now : Program Timestamp)
  let deployment := patched c patch photon current.object now.millis
  let _ ← ofStore (c.deployments.updateAt id deployment current.revision)
  return deployment

/-- Deletes a deployment. -/
def delete (c : Config) (id : String) : Service Unit := do
  ensureWritable c
  ofStore (c.deployments.delete id)

end Workplane.Service.Deployments
