import Workplane.Json.Reader

/-!
# Quantities of resources

Processor cores and accelerators are doubles, memory is a number of MiB in 64 bits.  Sums and
differences of memory stop at the ends of its range instead of wrapping around.
-/

namespace Workplane

/-- The 64-bit number nearest to `n`. -/
def saturate (n : Int) : Int64 :=
  if n < Int64.minValue.toInt then Int64.minValue
  else if Int64.maxValue.toInt < n then Int64.maxValue
  else Int64.ofInt n

theorem saturate_toInt {n : Int} (h : Int64.minValue.toInt ≤ n) (h' : n ≤ Int64.maxValue.toInt) :
    (saturate n).toInt = n := by
  rw [saturate, if_neg (by omega), if_neg (by omega)]
  simp only [Int64.toInt_minValue, Int64.toInt_maxValue] at h h'
  exact Int64.toInt_ofInt_of_le (by omega) (by omega)

/-- Quantities of schedulable resources. -/
structure Resources where
  /-- Cores. -/
  cpu : Float
  /-- MiB. -/
  memory : Int64
  accelerators : Float

namespace Resources

/-- No resources. -/
def zero : Resources := ⟨0, 0, 0⟩

/-- Every component of `r` is at most that of `limit`. -/
def fitsWithin (r limit : Resources) : Bool :=
  r.cpu ≤ limit.cpu && r.memory ≤ limit.memory && r.accelerators ≤ limit.accelerators

/-- The sum, component by component. -/
def add (r s : Resources) : Resources :=
  ⟨r.cpu + s.cpu, saturate (r.memory.toInt + s.memory.toInt), r.accelerators + s.accelerators⟩

/-- The difference, component by component. -/
def sub (r s : Resources) : Resources :=
  ⟨r.cpu - s.cpu, saturate (r.memory.toInt - s.memory.toInt), r.accelerators - s.accelerators⟩

/-- A double, or zero if it is not above zero. -/
def floorAtZero (x : Float) : Float :=
  if 0 < x then x else 0

/-- The difference, component by component, with zero instead of anything below it. -/
def subFloored (r s : Resources) : Resources :=
  ⟨floorAtZero (r.cpu - s.cpu),
    saturate (max 0 (r.memory.toInt - s.memory.toInt)),
    floorAtZero (r.accelerators - s.accelerators)⟩

/-- `n` times `r`; `none` if memory leaves its range or a double is not finite. -/
def scale? (r : Resources) (n : UInt32) : Option Resources :=
  let memory := r.memory.toInt * n.toNat
  let cpu := r.cpu * n.toFloat
  let accelerators := r.accelerators * n.toFloat
  if Int64.minValue.toInt ≤ memory ∧ memory ≤ Int64.maxValue.toInt ∧ cpu.isFinite ∧
      accelerators.isFinite then
    some ⟨cpu, Int64.ofInt memory, accelerators⟩
  else none

/-- Resources as a document. -/
def toJson (r : Resources) : Json :=
  .object [("cpu", .float r.cpu), ("memory", .int r.memory.toInt),
    ("accelerator_num", .float r.accelerators)]

/-- Resources from a document; a missing component is zero. -/
def reader : Reader Resources := fun room j => do
  let m ← Reader.members ["cpu", "memory", "accelerator_num"] room j
  return {
    cpu := ← m.withDefault "cpu" 0 Reader.float
    memory := ← m.withDefault "memory" 0 Reader.int64
    accelerators := ← m.withDefault "accelerator_num" 0 Reader.float }

end Resources

end Workplane
