import Workplane.Json.Reader

/-!
# Conditions of a replica

What the cluster says about a replica, one condition per type.  The first condition of a type
counts.
-/

namespace Workplane

/-- A condition that the cluster reports. -/
structure Condition where
  type : String
  /-- `True`, `False` or `Unknown`. -/
  status : String
  reason : Option String
  message : Option String
  deriving DecidableEq

namespace Condition

/-- A condition that holds or does not. -/
def ofBool (type : String) (status : Bool) : Condition :=
  ⟨type, if status then "True" else "False", none, none⟩

/-- The truth value of a status, if it is explicit. -/
def truth? (status : String) : Option Bool :=
  if status = "True" then some true
  else if status = "False" then some false
  else none

/-- Whether the condition of a type holds; `none` when there is none or it is not explicit. -/
def status? (conditions : List Condition) (type : String) : Option Bool := do
  let c ← conditions.find? fun c => c.type == type
  truth? c.status

/-- A condition as a document. -/
def toJson (c : Condition) : Json :=
  .object ([("type", .string c.type), ("status", .string c.status)] ++
    Json.optional "reason" .string c.reason ++ Json.optional "message" .string c.message)

/-- A condition from a document. -/
def reader : Reader Condition := fun room j => do
  let m ← Reader.members ["type", "status", "reason", "message"] room j
  return {
    type := ← m.required "type" Reader.text
    status := ← m.required "status" Reader.text
    reason := ← m.omittable "reason" Reader.text
    message := ← m.omittable "message" Reader.text }

end Condition

end Workplane
