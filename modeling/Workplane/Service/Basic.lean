import Workplane.Capacity.Quota
import Workplane.Deployment.Basic
import Workplane.Photon
import Workplane.Replica.Pod
import Workplane.Secret
import Workplane.Service.Error
import Workplane.Storage.Repository
import Workplane.Workspace.Config

/-!
# Services

A service is what the control plane does for a user: a program over the storage backend that ends
with a result or a refusal.  Here is what all services share: the repositories of a workspace, the
guard of workspaces that take no changes, and the look at the quota.
-/

namespace Workplane

/-- A program that may end with a refusal. -/
abbrev Service := ExceptT Refusal Program

namespace Service

/-- A program over the store, whose errors become refusals. -/
def ofStore (p : StoreProgram α) : Service α :=
  ExceptT.adapt Refusal.store p

/-- The result of a check, whose error becomes a refusal. -/
def ofCheck : Except Invalid α → Service α
  | .ok a => return a
  | .error i => throw (.invalid i)

/-- A program over the store, where an object that does not exist gives `none`. -/
def ifFound (p : StoreProgram α) : Service (Option α) :=
  ofStore <| tryCatch (some <$> p) fun
    | .notFound .. => return none
    | e => throw e

end Service

namespace Workspace.Config

/-- The repository of a kind of objects. -/
def repository (c : Config) (α : Type) : Repository α where
  scope := c.scope

/-- The builds of models. -/
def photons (c : Config) : Repository Photon := c.repository Photon

/-- The declared services. -/
def deployments (c : Config) : Repository Deployment := c.repository Deployment

/-- The secret values. -/
def secrets (c : Config) : Repository Secret := c.repository Secret

/-- The replicas, written by the cluster. -/
def pods (c : Config) : Repository Pod := c.repository Pod

/-- The events, written by the cluster. -/
def events (c : Config) : Repository Event := c.repository Event

/-- The quotas, written by the cluster. -/
def quotas (c : Config) : Repository Quota := c.repository Quota

end Workspace.Config

namespace Service

open Workspace (Config)

/-- Refuses changes where the state of the workspace does not allow them. -/
def ensureWritable (c : Config) : Service Unit :=
  if c.state.isWritable then return () else throw (.notWritable c.state)

/-- The quota of the workspace; `none` where it is not limited. -/
def quota (c : Config) : Service (Option Quota) :=
  ifFound (c.quotas.get c.name)

/-- A stored build of a model that a user refers to. -/
def resolvePhoton (c : Config) (id : String) : Service Photon := do
  match ← ifFound (c.photons.get id) with
  | some p => return p
  | none => throw (.photonMissing id)

end Service

end Workplane
