import Workplane.Capacity.Shape
import Workplane.Invalid

/-!
# Resource requirements

What a deployment asks for: the resources of one replica, given either as a shape or as raw
numbers, and the least number of replicas.
-/

namespace Workplane

/-- The resources that a deployment asks for. -/
structure Requirement where
  cpu : Float := 0
  /-- MiB. -/
  memory : Int64 := 0
  acceleratorType : String := ""
  accelerators : Float := 0
  /-- The name of a shape, or empty. -/
  shape : String := ""
  /-- Missing only where it was never set. -/
  minReplicas : Option UInt32 := none
  /-- Reserve whole nodes. -/
  exclusive : Bool := false

namespace Requirement

/-- A shape is named. -/
def hasShape (r : Requirement) : Bool :=
  !r.shape.isEmpty

/-- Both processor and memory are given as numbers. -/
def hasRaw (r : Requirement) : Bool :=
  r.cpu > 0 && r.memory > 0

/-- The resources of one replica; none for a shape that is not in the catalog. -/
def perReplica (r : Requirement) : Resources :=
  if r.hasShape then
    match Shape.find? r.shape with
    | some s => s.resources
    | none => .zero
  else ⟨r.cpu, r.memory, r.accelerators⟩

/-- The resources of all replicas together. -/
def total (r : Requirement) : Except Invalid Resources :=
  match r.perReplica.scale? (r.minReplicas.getD 0) with
  | some t => .ok t
  | none => .error .totalTooLarge

/-- Checks that the requirement can be scheduled. -/
def validate (r : Requirement) : Except Invalid Unit :=
  if r.cpu < 0 || r.memory < 0 || r.accelerators < 0 then .error .negativeResources
  else if r.hasShape && r.hasRaw then .error .shapeAndRaw
  else if !r.hasShape && !r.hasRaw then .error .noResources
  else if r.hasShape && (Shape.find? r.shape).isNone then .error (.unknownShape r.shape)
  else if r.minReplicas.getD 0 = 0 then .error .noReplicas
  else r.total.map fun _ => ()

/-- A requirement as a document. -/
def toJson (r : Requirement) : Json :=
  .object ([("cpu", .float r.cpu), ("memory", .int r.memory.toInt)] ++
    (if r.acceleratorType.isEmpty then [] else [("accelerator_type", .string r.acceleratorType)]) ++
    [("accelerator_num", .float r.accelerators)] ++
    (if r.shape.isEmpty then [] else [("resource_shape", .string r.shape)]) ++
    Json.optional "min_replicas" (fun n => .int n.toNat) r.minReplicas ++
    [("exclusive", .bool r.exclusive)])

/-- A requirement from a document. -/
def reader : Reader Requirement := fun room j => do
  let m ← Reader.members ["cpu", "memory", "accelerator_type", "accelerator_num",
    "resource_shape", "min_replicas", "exclusive"] room j
  return {
    cpu := ← m.withDefault "cpu" 0 Reader.float
    memory := ← m.withDefault "memory" 0 Reader.int64
    acceleratorType := ← m.withDefault "accelerator_type" "" Reader.text
    accelerators := ← m.withDefault "accelerator_num" 0 Reader.float
    shape := ← m.withDefault "resource_shape" "" Reader.text
    minReplicas := ← m.omittable "min_replicas" Reader.uint32
    exclusive := ← m.withDefault "exclusive" false Reader.bool }

end Requirement

end Workplane
