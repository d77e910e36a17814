import Workplane.Service.Basic

/-!
# Photons of a workspace

Listing, registering and deleting the builds of models.  A build that a deployment runs cannot be
deleted.
-/

namespace Workplane.Service.Photons

open Workspace (Config)

/-- All photons in the order of their identifiers. -/
def list (c : Config) : Service (List Photon) := do
  let photons ← ofStore c.photons.list
  return photons.mergeSort fun p q => decide (p.id ≤ q.id)

/-- The photon with an identifier. -/
def get (c : Config) (id : String) : Service Photon :=
  ofStore (c.photons.get id)

/-- Registers a photon.  Equal specifications have equal identifiers, so a second upload is a
conflict. -/
def create (c : Config) (spec : Photon.Spec) : Service Photon := do
  ensureWritable c
  ofCheck (Name.validate spec.name)
  if spec.image.isEmpty then throw .noImage
  let now ← (Program.now : Program Timestamp)
  let photon := Photon.ofSpec spec now.millis
  let _ ← ofStore (c.photons.create photon.id photon)
  return photon

/-- Deletes a photon that no deployment runs. -/
def delete (c : Config) (id : String) : Service Unit := do
  ensureWritable c
  let deployments ← ofStore c.deployments.list
  match deployments.find? fun d => d.spec.photonId == id with
  | some d => throw (.photonInUse id d.id)
  | none => ofStore (c.photons.delete id)

end Workplane.Service.Photons
