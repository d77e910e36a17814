import Workplane.Json.Printer
import Workplane.Json.Parser
import Workplane.Json.Reader

/-!
# Kinds of objects

A kind is a type of objects that are stored under their names, together with the document form
they are stored in.
-/

namespace Workplane

/-- A type of stored objects. -/
class Kind (α : Type) where
  /-- The plural name of the kind in storage keys. -/
  plural : String
  /-- The name that an object is stored under. -/
  objectName : α → String
  toJson : α → Json
  reader : Reader α

namespace Kind

variable [Kind α]

/-- The stored form of an object. -/
def encode (a : α) : ByteArray :=
  (toJson a).bytes

/-- The object with a stored form. -/
def decode? (b : ByteArray) : Option α := do
  Reader.run reader (← Json.ofBytes? b)

end Kind

end Workplane
