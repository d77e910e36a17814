import Workplane.Replica.ExitCode
import Workplane.Time.Timestamp

/-!
# Containers of a replica

The status of a container and, if it has stopped before, how.  `Termination.ofStatuses` lists the
abnormal ends, each with a reason and a message.
-/

namespace Workplane

/-- How a container ended. -/
structure ContainerEnd where
  exitCode : Int32
  reason : String
  message : String
  startedAt : Option Timestamp
  finishedAt : Option Timestamp
  deriving DecidableEq

namespace ContainerEnd

/-- An end as a document. -/
def toJson (e : ContainerEnd) : Json :=
  .object ([("exit_code", .int e.exitCode.toInt), ("reason", .string e.reason),
      ("message", .string e.message)] ++
    Json.optional "started_at" Timestamp.toJson e.startedAt ++
    Json.optional "finished_at" Timestamp.toJson e.finishedAt)

/-- An end from a document. -/
def reader : Reader ContainerEnd := fun room j => do
  let m ← Reader.members ["exit_code", "reason", "message", "started_at", "finished_at"] room j
  return {
    exitCode := ← m.required "exit_code" Reader.int32
    reason := ← m.withDefault "reason" "" Reader.text
    message := ← m.withDefault "message" "" Reader.text
    startedAt := ← m.omittable "started_at" Timestamp.reader
    finishedAt := ← m.omittable "finished_at" Timestamp.reader }

/-- The state of a container as a document: its end, if there is one. -/
def stateJson (terminated : Option ContainerEnd) : Json :=
  .object (Json.optional "terminated" toJson terminated)

/-- The state of a container from a document. -/
def stateReader : Reader (Option ContainerEnd) := fun room j => do
  (← Reader.members ["terminated"] room j).omittable "terminated" reader

end ContainerEnd

/-- The status of a container. -/
structure ContainerStatus where
  name : String
  ready : Bool
  restartCount : UInt32
  /-- The state before the last restart, and the end that the state holds. -/
  lastState : Option (Option ContainerEnd)
  deriving DecidableEq

namespace ContainerStatus

/-- The last end of the container. -/
def lastEnd (s : ContainerStatus) : Option ContainerEnd :=
  s.lastState.join

/-- A status as a document. -/
def toJson (s : ContainerStatus) : Json :=
  .object ([("name", .string s.name), ("ready", .bool s.ready),
      ("restart_count", .int s.restartCount.toNat)] ++
    Json.optional "last_state" ContainerEnd.stateJson s.lastState)

/-- A status from a document. -/
def reader : Reader ContainerStatus := fun room j => do
  let m ← Reader.members ["name", "ready", "restart_count", "last_state"] room j
  return {
    name := ← m.required "name" Reader.text
    ready := ← m.withDefault "ready" false Reader.bool
    restartCount := ← m.withDefault "restart_count" 0 Reader.uint32
    lastState := ← m.omittable "last_state" ContainerEnd.stateReader }

end ContainerStatus

/-- Why a container last ended. -/
structure Termination where
  startedAt : Option Timestamp
  finishedAt : Option Timestamp
  exitCode : Int32
  reason : String
  message : String
  deriving DecidableEq

namespace Termination

/-- The reason of a container that ended on its own accord. -/
def completed : String := "Completed"

/-- A text, or the exit code in words if the text is empty. -/
def explained (text : String) (code : Int32) : String :=
  if text.isEmpty then ExitCode.explain code else text

/-- The record of an end. -/
def ofEnd (e : ContainerEnd) : Termination where
  startedAt := e.startedAt
  finishedAt := e.finishedAt
  exitCode := e.exitCode
  reason := explained e.reason e.exitCode
  message := explained e.message e.exitCode

/-- The last end of every container that did not complete, in the order of the containers. -/
def ofStatuses (statuses : List ContainerStatus) : List Termination :=
  ((statuses.filterMap ContainerStatus.lastEnd).filter fun e => e.reason != completed).map ofEnd

/-- A termination as a document. -/
def toJson (t : Termination) : Json :=
  .object [("started_at", .nullable Timestamp.toJson t.startedAt),
    ("finished_at", .nullable Timestamp.toJson t.finishedAt),
    ("exit_code", .int t.exitCode.toInt), ("reason", .string t.reason),
    ("message", .string t.message)]

/-- A termination from a document. -/
def reader : Reader Termination := fun room j => do
  let m ← Reader.members ["started_at", "finished_at", "exit_code", "reason", "message"] room j
  return {
    startedAt := ← m.optional "started_at" Timestamp.reader
    finishedAt := ← m.optional "finished_at" Timestamp.reader
    exitCode := ← m.required "exit_code" Reader.int32
    reason := ← m.required "reason" Reader.text
    message := ← m.required "message" Reader.text }

end Termination

end Workplane
