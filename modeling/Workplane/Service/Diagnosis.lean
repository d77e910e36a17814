import Workplane.Replica.Readiness
import Workplane.Service.Basic

/-!
# Diagnosis of a deployment

Reports on the replicas of a deployment, by the names of the replicas: why they are not ready, and
how their containers ended.
-/

namespace Workplane.Service.Diagnosis

open Workspace (Config)

/-- A list of findings for every replica. -/
abbrev Report (α : Type) := List (String × List α)

/-- A report as a document. -/
def reportJson (encode : α → Json) (r : Report α) : Json :=
  .object (r.map fun m => (m.1, .array (m.2.map encode)))

/-- The replicas of a deployment that exists. -/
def replicas (c : Config) (id : String) : Service (List Pod) := do
  let _ ← ofStore (c.deployments.get id)
  let pods ← ofStore c.pods.list
  return pods.filter fun p => p.deployment == id

/-- The events about a replica or its deployment. -/
def eventsAbout (p : Pod) (events : List Event) : List Event :=
  events.filter fun e => e.regarding == p.name || e.regarding == p.deployment

/-- The verdict on a replica, from all events or from a failed look at them. -/
def verdict (events : Except StoreError (List Event)) (p : Pod) : Readiness :=
  Readiness.diagnose p.conditions <|
    match events with
    | .ok events => .ok (eventsAbout p events)
    | .error e => .error s!"failed to list events: {e.message}"

/-- The findings on replicas, those on replicas of the same name together. -/
def grouped (finding : Pod → α) (pods : List Pod) : Report α :=
  Sorted.ofList <| pods.map fun p =>
    (p.name, (pods.filter fun q => q.name == p.name).map finding)

/-- Why the replicas of a deployment are not ready. -/
def readiness (c : Config) (id : String) : Service (Report Readiness) := do
  let pods ← replicas c id
  let events ← (c.events.list.run : Program (Except StoreError (List Event)))
  return grouped (verdict events) pods

/-- How the containers of the replicas of a deployment ended. -/
def terminations (c : Config) (id : String) : Service (Report Termination) := do
  let pods ← replicas c id
  return Sorted.ofList (pods.map fun p => (p.name, Termination.ofStatuses p.containers))

end Workplane.Service.Diagnosis
