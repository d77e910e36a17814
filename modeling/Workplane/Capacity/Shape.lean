import Workplane.Capacity.Resources

/-!
# Shapes

A shape is a named bundle of the resources of one replica.  `Shape.catalog` lists those that can
be scheduled.
-/

namespace Workplane

/-- A named bundle of resources for one replica. -/
structure Shape where
  name : String
  resources : Resources
  acceleratorType : Option String

namespace Shape

/-- A shape without accelerators. -/
def ofCpu (name : String) (cpu : Float) (memory : Int64) : Shape :=
  ⟨name, ⟨cpu, memory, 0⟩, none⟩

/-- A shape with accelerators of one type. -/
def ofGpu (name : String) (cpu : Float) (memory : Int64) (type : String) (count : Float) : Shape :=
  ⟨name, ⟨cpu, memory, count⟩, some type⟩

/-- The shapes that can be scheduled. -/
def catalog : List Shape := [
  ofCpu "cpu.small" 1 4096,
  ofCpu "cpu.medium" 2 8192,
  ofCpu "cpu.large" 4 16384,
  ofCpu "gp1.small" 1 4096,
  ofCpu "gp1.medium" 2 8192,
  ofCpu "gp1.large" 4 16384,
  ofGpu "gpu.t4" 4 16384 "NVIDIA-T4" 1,
  ofGpu "gpu.a10" 8 32768 "NVIDIA-A10G" 1,
  ofGpu "gpu.a10.6xlarge" 24 98304 "NVIDIA-A10G" 1,
  ofGpu "gpu.a100-40gb" 12 88064 "NVIDIA-A100-40GB" 1,
  ofGpu "gpu.a100-80gb" 12 176128 "NVIDIA-A100-80GB" 1,
  ofGpu "gpu.2xa100-80gb" 24 352256 "NVIDIA-A100-80GB" 2,
  ofGpu "gpu.h100" 24 229376 "NVIDIA-H100" 1]

/-- The shape with a given name. -/
def find? (name : String) : Option Shape :=
  List.find? (fun s => s.name == name) catalog

/-- A shape as a document. -/
def toJson (s : Shape) : Json :=
  .object [("name", .string s.name), ("resources", s.resources.toJson),
    ("accelerator_type", .nullable .string s.acceleratorType)]

end Shape

end Workplane
