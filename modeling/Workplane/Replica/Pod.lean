import Workplane.Replica.Condition
import Workplane.Replica.Container
import Workplane.Storage.Kind

/-!
# Pods and events

A pod is a replica of a deployment as the cluster reports it; an event is something that the
cluster noticed about a pod or a deployment.
-/

namespace Workplane

/-- A replica of a deployment. -/
structure Pod where
  name : String
  /-- The identifier of the deployment. -/
  deployment : String
  conditions : List Condition
  containers : List ContainerStatus
  deriving DecidableEq

namespace Pod

/-- A pod as a document. -/
def toJson (p : Pod) : Json :=
  .object [("name", .string p.name), ("deployment", .string p.deployment),
    ("conditions", .array (p.conditions.map Condition.toJson)),
    ("container_statuses", .array (p.containers.map ContainerStatus.toJson))]

/-- A pod from a document. -/
def reader : Reader Pod := fun room j => do
  let m ← Reader.members ["name", "deployment", "conditions", "container_statuses"] room j
  return {
    name := ← m.required "name" Reader.text
    deployment := ← m.required "deployment" Reader.text
    conditions := ← m.withDefault "conditions" [] (Reader.list Condition.reader)
    containers := ← m.withDefault "container_statuses" [] (Reader.list ContainerStatus.reader) }

instance : Kind Pod where
  plural := "pods"
  objectName := name
  toJson := toJson
  reader := reader

end Pod

/-- An event about a pod or a deployment. -/
structure Event where
  name : String
  /-- The name of the pod or the identifier of the deployment. -/
  regarding : String
  /-- `Normal` or `Warning`. -/
  type : String
  reason : String
  note : String
  eventTime : Option Timestamp
  /-- Where older producers put the time. -/
  lastTimestamp : Option Timestamp
  deriving DecidableEq

namespace Event

/-- When the event was last observed. -/
def observedAt (e : Event) : Option Timestamp :=
  e.eventTime <|> e.lastTimestamp

/-- An event as a document. -/
def toJson (e : Event) : Json :=
  .object ([("name", .string e.name), ("regarding", .string e.regarding), ("type", .string e.type),
      ("reason", .string e.reason), ("note", .string e.note)] ++
    Json.optional "event_time" Timestamp.toJson e.eventTime ++
    Json.optional "deprecated_last_timestamp" Timestamp.toJson e.lastTimestamp)

/-- An event from a document. -/
def reader : Reader Event := fun room j => do
  let m ← Reader.members ["name", "regarding", "type", "reason", "note", "event_time",
    "deprecated_last_timestamp"] room j
  return {
    name := ← m.required "name" Reader.text
    regarding := ← m.required "regarding" Reader.text
    type := ← m.withDefault "type" "" Reader.text
    reason := ← m.withDefault "reason" "" Reader.text
    note := ← m.withDefault "note" "" Reader.text
    eventTime := ← m.omittable "event_time" Timestamp.reader
    lastTimestamp := ← m.omittable "deprecated_last_timestamp" Timestamp.reader }

instance : Kind Event where
  plural := "events"
  objectName := name
  toJson := toJson
  reader := reader

end Event

end Workplane
