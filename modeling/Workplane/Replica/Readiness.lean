import Workplane.Replica.Address
import Workplane.Replica.Pod

/-!
# Readiness

Why a replica is not ready.  `Readiness.diagnose` looks at the conditions of the replica first
and, where they are not conclusive, at its events.  Among events of one class the latest counts;
an event without a time is earlier than any other, and of events with the same time the first
counts.
-/

namespace Workplane

/-- The verdict on a replica. -/
inductive Readiness.Reason where
  | ready
  | inProgress
  | noCapacity
  | configError
  | systemError
  | unknown
  deriving DecidableEq

namespace Readiness.Reason

/-- The verdicts with their written names. -/
def names : List (String × Readiness.Reason) :=
  [("Ready", ready), ("InProgress", inProgress), ("NoCapacity", noCapacity),
    ("ConfigError", configError), ("SystemError", systemError), ("Unknown", unknown)]

/-- The written name of a verdict. -/
def name : Readiness.Reason → String
  | ready => "Ready"
  | inProgress => "InProgress"
  | noCapacity => "NoCapacity"
  | configError => "ConfigError"
  | systemError => "SystemError"
  | unknown => "Unknown"

end Readiness.Reason

/-- A verdict with its explanation. -/
structure Readiness where
  reason : Readiness.Reason
  message : String
  deriving DecidableEq

namespace Readiness

/-- A verdict as a document. -/
def toJson (r : Readiness) : Json :=
  .object [("reason", .string r.reason.name), ("message", .string r.message)]

/-- A verdict from a document. -/
def reader : Reader Readiness := fun room j => do
  let m ← Reader.members ["reason", "message"] room j
  return {
    reason := ← m.required "reason" (Reader.choice Reason.names)
    message := ← m.required "message" Reader.text }

/-! ### The latest event of a class -/

/-- `e` was observed later than `l`; no time at all is the earliest. -/
def isLater (e l : Event) : Bool :=
  match e.observedAt, l.observedAt with
  | some t, some u => u.before t
  | some _, none => true
  | none, _ => false

/-- The latest of the events, the first of them if several are. -/
def latest : List Event → Option Event
  | [] => none
  | e :: rest => some (rest.foldl (fun l e => if isLater e l then e else l) e)

/-- The latest event of a class. -/
def latestWhere (p : Event → Bool) (events : List Event) : Option Event :=
  latest (events.filter p)

/-! ### Verdicts from events -/

/-- `t` is at the front of `s`. -/
def startsWith (s t : String) : Bool :=
  t.toList.isPrefixOf s.toList

/-- `t` occurs in `s`. -/
def occursIn (t : String) (s : List Char) : Bool :=
  match s with
  | [] => t.toList.isPrefixOf []
  | c :: rest => t.toList.isPrefixOf (c :: rest) || occursIn t rest

/-- A class of warnings that explains a replica. -/
structure Rule where
  /-- The reason of the warnings; any if `none`. -/
  reason : Option String
  /-- The front of their notes. -/
  noteStart : String
  verdict : Event → Readiness

/-- The warning belongs to the class. -/
def Rule.matches (r : Rule) (e : Event) : Bool :=
  e.type == "Warning" && r.reason.all (fun reason => e.reason == reason) &&
    startsWith e.note r.noteStart

/-- The classes of warnings, the most telling first. -/
def rules : List Rule := [
  ⟨some "Failed", "Failed to pull image \"amazon/aws-cli\"", fun e =>
    if occursIn "401 Unauthorized" e.note.toList then
      ⟨.configError, "Failed to pull system image: invalid dockerhub credentials"⟩
    else ⟨.systemError, "Failed to pull system image"⟩⟩,
  ⟨some "Failed", "Failed to pull image", fun _ =>
    ⟨.configError, "Image not found or not accessible"⟩⟩,
  ⟨some "Failed", "Error: couldn't find key non-exist in Secret", fun _ =>
    ⟨.configError, "Secret not found"⟩⟩,
  ⟨some "FailedMount", "", fun _ => ⟨.configError, "Mount point not found"⟩⟩,
  ⟨some "Unhealthy", "Readiness probe failed", fun e =>
    ⟨.inProgress, Address.maskAll e.note⟩⟩,
  ⟨none, "", fun e => ⟨.unknown, e.note⟩⟩]

/-- The verdict of the first class that has a warning, on the latest warning of that class. -/
def ofWarnings (events : List Event) : Readiness :=
  (rules.findSome? fun r => (latestWhere r.matches events).map r.verdict).getD ⟨.unknown, ""⟩

/-- The step of the start of a replica that a normal event marks. -/
def stepMessage (reason : String) : String :=
  if reason = "Pulling" then "Pulling image"
  else if reason = "Pulled" then "Creating the replica"
  else if reason = "Created" then "Starting the replica"
  else if reason = "Started" then "Waiting for the replica to become ready"
  else ""

/-- The verdict from the events alone: a step if the latest event is normal, the warnings
otherwise. -/
def ofEvents (events : List Event) : Readiness :=
  match latest events with
  | some e =>
    if e.type = "Normal" then ⟨.inProgress, stepMessage e.reason⟩ else ofWarnings events
  | none => ofWarnings events

/-- There is an event with the given reason. -/
def hasReason (events : List Event) (reason : String) : Bool :=
  events.any fun e => e.reason == reason

/-- The verdict on a replica that has no place to run yet. -/
def ofUnscheduled (events : List Event) : Readiness :=
  if hasReason events "TriggeredScaleUp" then ⟨.inProgress, "Adding capacity for the replica"⟩
  else if hasReason events "NotTriggerScaleUp" || hasReason events "FailedScheduling" then
    ⟨.noCapacity, "Waiting to add capacity for the replica"⟩
  else ⟨.noCapacity, "Scheduling the replica"⟩

/-! ### Verdicts from conditions -/

/-- The verdict on a replica.  `events` are its events, or the message of a failed lookup. -/
def diagnose (conditions : List Condition) (events : Except String (List Event)) : Readiness :=
  let status := Condition.status? conditions
  if status "Ready" = some true then ⟨.ready, ""⟩
  else match events with
  | .error message => ⟨.unknown, message⟩
  | .ok events =>
    if status "PodScheduled" = some false then ofUnscheduled events
    else if status "Initialized" = some false then
      let r := ofEvents events
      if r.reason = .inProgress then ⟨.inProgress, "Initializing the replica"⟩ else r
    else if status "ContainersReady" = some false then ofEvents events
    else if status "DisruptionTarget" = some true then
      ⟨.inProgress, "Replica is about to be terminated due to a disruption"⟩
    else ofEvents events

end Readiness

end Workplane
