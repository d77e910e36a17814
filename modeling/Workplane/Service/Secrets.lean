import Workplane.Service.Basic

/-!
# Secrets of a workspace

Listing the names of secrets, storing and deleting secrets.  A secret that the environment of a
deployment refers to cannot be deleted, and no value of a secret is ever shown.
-/

namespace Workplane.Service.Secrets

open Workspace (Config)

/-- The names of all secrets in order. -/
def names (c : Config) : Service (List String) := do
  let secrets ← ofStore c.secrets.list
  return (secrets.map Secret.name).mergeSort fun a b => decide (a ≤ b)

/-- Checks that a secret can be stored under its name. -/
def checkName (s : Secret) : Service Unit :=
  if Secret.isValidName s.name then return () else throw (.secretName s.name)

/-- Stores a secret under its name, over another one. -/
def put (c : Config) (s : Secret) : Service Unit := do
  match ← ifFound (c.secrets.getVersioned s.name) with
  | some current =>
    let _ ← ofStore (c.secrets.updateAt s.name s current.revision)
  | none =>
    let _ ← ofStore (c.secrets.create s.name s)

/-- Stores secrets one after another, if all their names are valid. -/
def putAll (c : Config) (secrets : List Secret) : Service Unit := do
  ensureWritable c
  secrets.forM checkName
  secrets.forM (put c)

/-- Deletes a secret that no deployment refers to. -/
def delete (c : Config) (name : String) : Service Unit := do
  ensureWritable c
  let deployments ← ofStore c.deployments.list
  match deployments.find? fun d => d.spec.secretRefs.contains name with
  | some d => throw (.secretInUse name d.id)
  | none => ofStore (c.secrets.delete name)

end Workplane.Service.Secrets
