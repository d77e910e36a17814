import Workplane.Deployment.Basic
import Workplane.Workspace.State

/-!
# Workspace configuration

What is fixed while a control plane serves a workspace, and what follows from it: where images
are pulled from, and the paths and addresses of a deployment.
-/

namespace Workplane.Workspace

/-- The configuration of a workspace. -/
structure Config where
  /-- The part of the store that belongs to the workspace. -/
  scope : String
  name : String
  state : State
  bucketName : String := ""
  /-- The shared file system. -/
  efsId : String := ""
  rootDomain : String := ""
  token : String := ""
  certificateArn : String := ""
  imageRegistry : String := ""

namespace Config

/-! ### Images -/

/-- The first part of an image names a registry, not a repository. -/
def isRegistryHost (part : List Char) : Bool :=
  part.contains '.' || part.contains ':' || part == "localhost".toList

/-- An image without the registry that it names. -/
def imagePath (image : List Char) : List Char :=
  match image.dropWhile (· != '/') with
  | [] => image
  | _ :: rest => if isRegistryHost (image.takeWhile (· != '/')) then rest else image

/-- The registry of the workspace, without slashes at its end. -/
def registry (c : Config) : List Char :=
  (c.imageRegistry.toList.reverse.dropWhile (· == '/')).reverse

/-- The place that an image is pulled from: the registry of the workspace, if it has one. -/
def placeImage (c : Config) (image : String) : String :=
  if c.registry.isEmpty then image
  else String.ofList (c.registry ++ '/' :: imagePath image.toList)

/-! ### Deployments -/

/-- The place of a deployment in the bucket. -/
def bucketPath (c : Config) (id : String) : String :=
  s!"s3://{c.bucketName}/{c.name}/deployments/{id}"

/-- The place of the workspace in the shared file system. -/
def efsPath (c : Config) : String :=
  s!"{c.efsId}:/{c.name}"

/-- The public host of a deployment; empty without a root domain. -/
def domain (c : Config) (id : String) : String :=
  if c.rootDomain.isEmpty then "" else s!"{id}-{c.name}.{c.rootDomain}"

/-- The addresses of a deployment. -/
def endpoint (c : Config) (id : String) : Deployment.Endpoint where
  internal := s!"http://{id}.{c.scope}.svc.cluster.local:8080"
  external := if (c.domain id).isEmpty then "" else s!"https://{c.domain id}"

/-- The derived part of a deployment of a build with the given model and image. -/
def system (c : Config) (id photonName image : String) : Deployment.System where
  image := c.placeImage image
  photonName := photonName
  bucketPath := c.bucketPath id
  efsPath := c.efsPath
  rootDomain := c.rootDomain
  workspaceToken := c.token
  certificateArn := c.certificateArn

end Config

end Workplane.Workspace
